import Mathlib.Tactic
import TaskQueue.Concurrent.Agreement
import TaskQueue.Concurrent.Logged

/-!
# Checkpoints of a running process

`checkpoint` copies the registry, writes the snapshot and rotates the log, each under
its own lock or none, while other threads go on.  A record that is appended between the
copy and the closing of the log goes away with the old log, and what it said is lost if
the copy does not have it (`checkpoint_losesTask`).  `checkpoint_keeps` shows that
otherwise a crash at any point of a checkpoint, followed by `Recover`, loses no task
that was accepted and no outcome whose record was appended.

`current` and `rotated` are the directories that the checkpoint under way may leave
behind; the invariant says that `Recover` finds in each of them all that it has to.
-/

namespace TaskQueue

open Queue
open Wal (Log LogEnv LogRecord Snapshot)
open Engine (HandlerError Disk Loads SameTasks writtenState)

/-- The outcome whose record a worker appends next. -/
def WorkerPc.logsOutcome : WorkerPc → Option (TaskID × TaskState)
  | .completing id => some (id, .completed)
  | .dying id _ => some (id, .dead)
  | _ => none

/-- The task whose `EntryEnqueue` a client appends next. -/
def CallPc.logsEnqueue : CallPc → Option TaskID
  | .marshalled task _ => some task.id
  | _ => none

/-- The task whose `EntryCancel` a client appends next. -/
def CallPc.logsCancel : CallPc → Option TaskID
  | .cancelling id => some id
  | _ => none

namespace World

variable {n m : Nat}

/-- What `Recover` has to find: the logged tasks, and the outcomes that were appended. -/
structure Known (s : World n m) (loaded : Engine) : Prop where
  tasks : ∀ id, s.Logged id → (loaded.tasks.get id).isSome = true
  states : ∀ id x, (id, x) ∈ s.reported → loaded.stateOf id = some x

/-- The directory as it is, and as it is once the snapshot has been written. -/
def current (s : World n m) : List Disk :=
  match s.checkpointer with
  | .copied snap => [s.disk, { s.disk with snapshot := some snap }]
  | _ => [s.disk]

/-- The directory that the rotation under way leaves. -/
def rotated (s : World n m) : Option Disk :=
  match s.checkpointer with
  | .copied snap => some { s.disk with snapshot := some snap, walBin := [] }
  | .written => some { s.disk with walBin := [] }
  | .closed => some { s.disk with walBin := [] }
  | _ => none

/-- The numbers of the records and of the snapshots do not exceed the counter. -/
structure Numbered (s : World n m) : Prop where
  records : ∀ r ∈ s.disk.walBin, r.entry.seq ≤ s.engine.walLog.seq
  snapshots : ∀ d ∈ s.current, d.snapSeq ≤ s.engine.walLog.seq
  closed : s.checkpointer = .closed ∨ s.checkpointer = .renamed →
    s.engine.walLog.closed = true

/-- The threads agree, and the accepted tasks are logged under their names. -/
structure Enrolled (s : World n m) : Prop where
  agreement : Agreement True s
  named : ∀ c task data, s.calls c = .marshalled task data → data.id = task.id
  accepted : ∀ id ∈ s.accepted, s.Logged id

/-- The invariant: every directory that a crash may leave gives back all that it has to. -/
structure Durable (s : World n m) : Prop where
  enrolled : Enrolled s
  reported : ∀ id x, (id, x) ∈ s.reported → s.engine.stateOf id = some x ∧ x.isLive = false
  numbered : Numbered s
  current : ∀ d ∈ s.current, Loads d s.Known
  rotated : ∀ d ∈ s.rotated, Loads d s.Known

variable {s s' : World n m}

theorem walBin_of_rotated
    {d : Disk}
    (h : d ∈ s.rotated) :
    d.walBin = [] := by
  unfold World.rotated at h
  split at h
  all_goals
    cases h
  all_goals
    rfl

theorem current_congr
    (hdisk : s'.disk = s.disk)
    (hcheckpointer : s'.checkpointer = s.checkpointer) :
    s'.current = s.current := by
  unfold World.current
  rw [hdisk, hcheckpointer]

theorem rotated_congr
    (hdisk : s'.disk.snapshot = s.disk.snapshot ∧ s'.disk.walOld = s.disk.walOld)
    (hcheckpointer : s'.checkpointer = s.checkpointer) :
    s'.rotated = s.rotated := by
  unfold World.rotated
  rw [hcheckpointer]
  obtain ⟨h₁, h₂⟩ := hdisk
  cases s.checkpointer <;> simp [h₁, h₂]

/-- The directories after a record has been appended. -/
theorem mem_current_extend
    {r : LogRecord Engine.EntryData} {d : Disk}
    (hdisk : s'.disk = s.disk.extend r)
    (hcheckpointer : s'.checkpointer = s.checkpointer)
    (hd : d ∈ s'.current) :
    ∃ d₀ ∈ s.current, d = d₀.extend r := by
  unfold World.current at hd ⊢
  rw [hcheckpointer, hdisk] at hd
  cases hpc : s.checkpointer with
  | copied snap =>
      simp only [hpc, List.mem_cons, List.not_mem_nil, or_false] at hd ⊢
      rcases hd with rfl | rfl
      · exact ⟨_, Or.inl rfl, rfl⟩
      · exact ⟨_, Or.inr rfl, rfl⟩
  | _ =>
      simp only [hpc, List.mem_singleton] at hd ⊢
      exact ⟨_, rfl, hd⟩

theorem mem_current_disk
    (s : World n m) :
    s.disk ∈ s.current := by
  unfold World.current
  split <;> exact List.mem_cons_self

section Enrolled

theorem workerStep_enrolled
    {w : Fin n} {env : LogEnv} {result : Option HandlerError} {delay : Duration}
    (h : Enrolled s)
    (hok : s.Orderly (.worker w env result delay))
    (hstep : WorkerStep s w env s') :
    Enrolled s' := by
  have hcalls : ∀ c, s'.calls c = s.calls c := fun c => hstep.acted.calls c (by simp)
  refine ⟨workerStep_agreement h.agreement hok hstep, ?_, ?_⟩
  · intro c task data hpc
    exact h.named c task data ((hcalls c) ▸ hpc)
  · intro id hid
    rw [hstep.history.2.1] at hid
    exact (logged_congr hstep.sameTasks hcalls).mpr (h.accepted id hid)

theorem schedulerStep_enrolled
    {now : Time}
    (h : Enrolled s)
    (hok : s.Orderly (.scheduler now))
    (hstep : SchedulerStep s now s') :
    Enrolled s' := by
  have hcalls : ∀ c, s'.calls c = s.calls c := fun c => hstep.acted.calls c (by simp)
  refine ⟨schedulerStep_agreement h.agreement hok hstep, ?_, ?_⟩
  · intro c task data hpc
    exact h.named c task data ((hcalls c) ▸ hpc)
  · intro id hid
    rw [hstep.history.2.1] at hid
    exact (logged_congr hstep.sameTasks hcalls).mpr (h.accepted id hid)

variable {c : Fin m} {env : LogEnv}

/-- The data of the record is the task under its own name. -/
theorem CallStep.named
    (hstep : CallStep s c env s')
    (h : Custody s)
    {task data : Task}
    (hpc' : s'.calls c = .marshalled task data) :
    data.id = task.id := by
  cases hstep with
  | @marshal t hpc hjson =>
      simp only [toCall, Function.update_self, CallPc.marshalled.injEq] at hpc'
      obtain ⟨rfl, rfl⟩ := hpc'
      cases hget : s.engine.tasks.get t.id with
      | none =>
          rfl
      | some t' =>
          exact (h.named t.id t' hget).1
  | _ =>
      simp [toCall, report] at hpc'

theorem callStep_enrolled
    (h : Enrolled s)
    (hstep : CallStep s c env s') :
    Enrolled s' := by
  have hcustody := h.agreement.custody
  refine ⟨callStep_agreement h.agreement hstep, ?_, ?_⟩
  · intro c' task data hpc
    by_cases hc : c' = c
    · subst hc
      exact hstep.named hcustody hpc
    · rw [hstep.acted.calls c' (by simpa using Ne.symm hc)] at hpc
      exact h.named c' task data hpc
  · intro id hid
    rcases hstep.accepted_logged hcustody hid with hold | hlogged
    · exact hstep.logged_mono (h.accepted id hold)
    · exact hstep.logged_mono hlogged

theorem submitStep_enrolled
    {task : Task} {generatedID : TaskID} {now : Time}
    (h : Enrolled s)
    (hstep : s.submitStep c task generatedID now = some s') :
    Enrolled s' := by
  have hlogged := submitStep_logged_iff h.agreement.custody hstep
  refine ⟨submitStep_agreement h.agreement hstep, ?_, ?_⟩
  · rcases submitStep_cases hstep with rfl | ⟨hpc, -, -, rfl⟩
    · exact h.named
    · intro c' task' data hc
      by_cases hcc : c' = c
      · subst hcc
        simp [toCall] at hc
      · have hsame := Function.update_of_ne hcc
          (CallPc.registered (s.engine.prepare task generatedID now)) s.calls
        exact h.named c' task' data (hsame.symm.trans hc)
  · intro id hid
    refine (hlogged id).mpr (h.accepted id ?_)
    rcases submitStep_cases hstep with rfl | ⟨-, -, -, rfl⟩
    · exact hid
    · exact hid

theorem cancelStep_enrolled
    {id : TaskID} {now : Time}
    (h : Enrolled s)
    (hok : s.Orderly (.cancel c id now))
    (hstep : s.cancelStep c id now = some s') :
    Enrolled s' := by
  have hlogged := cancelStep_logged_iff hstep
  refine ⟨cancelStep_agreement h.agreement trivial hok hstep, ?_, ?_⟩
  · rcases cancelStep_cases hstep with rfl | ⟨hpc, t, -, -, rfl⟩
    · exact h.named
    · intro c' task data hc
      by_cases hcc : c' = c
      · subst hcc
        simp [toCall] at hc
      · rw [s.acted_toCall.calls c' (by simpa using Ne.symm hcc)] at hc
        exact h.named c' task data hc
  · intro j hj
    refine (hlogged j).mpr (h.accepted j ?_)
    rcases cancelStep_cases hstep with rfl | ⟨-, t, -, -, rfl⟩
    · exact hj
    · exact hj

end Enrolled

theorem Numbered.congr
    (h : Numbered s)
    (hdisk : s'.disk = s.disk)
    (hlog : s'.engine.walLog = s.engine.walLog)
    (hcheckpointer : s'.checkpointer = s.checkpointer) :
    Numbered s' := by
  refine ⟨?_, ?_, ?_⟩
  · rw [hdisk, hlog]
    exact h.records
  · rw [current_congr hdisk hcheckpointer, hlog]
    exact h.snapshots
  · rw [hcheckpointer, hlog]
    exact h.closed

/-- A step that writes nothing to the directory. -/
theorem Durable.quiet
    (h : Durable s)
    (henrolled : Enrolled s')
    (hdisk : s'.disk = s.disk)
    (hlog : s'.engine.walLog = s.engine.walLog)
    (hcheckpointer : s'.checkpointer = s.checkpointer)
    (hreported : s'.reported = s.reported)
    (hkept : ∀ id x, s.engine.stateOf id = some x → x.isLive = false →
      s'.engine.stateOf id = some x)
    (hlogged : ∀ id, s'.Logged id → s.Logged id) :
    Durable s' := by
  have hknown : ∀ e, Known s e → Known s' e := by
    intro e he
    refine ⟨fun id hid => he.tasks id (hlogged id hid), ?_⟩
    rw [hreported]
    exact he.states
  refine ⟨henrolled, ?_, h.numbered.congr hdisk hlog hcheckpointer,
    ?_, ?_⟩
  · intro id x hx
    rw [hreported] at hx
    obtain ⟨hst, hx'⟩ := h.reported id x hx
    exact ⟨hkept id x hst hx', hx'⟩
  · intro d hd
    rw [current_congr hdisk hcheckpointer] at hd
    exact (h.current d hd).mono hknown
  · intro d hd
    rw [rotated_congr (by rw [hdisk]; exact ⟨rfl, rfl⟩) hcheckpointer] at hd
    exact (h.rotated d hd).mono hknown

/-- An `Append`, whatever comes of it, with what it makes known. -/
theorem Durable.appended
    {type : Wal.EntryType} {id : TaskID} {data : Engine.EntryData} {env : LogEnv}
    (h : Durable s)
    (henrolled : Enrolled s')
    (hreported : ∀ id x, (id, x) ∈ s'.reported →
      s'.engine.stateOf id = some x ∧ x.isLive = false)
    (hdisk : s'.disk = (s.engine.append s.disk type id data env).2.1)
    (hlog : s'.engine.walLog = (s.engine.append s.disk type id data env).1.walLog)
    (hcheckpointer : s'.checkpointer = s.checkpointer)
    (hlen : env.bodyLen ≤ Wal.maxBody)
    (hdata : type = .enqueue → data.task.isSome = true)
    (hfailed : (s.engine.append s.disk type id data env).2.2 = false →
      ∀ e, Known s e → Known s' e)
    (hentry : ∀ e e', Known s e →
      e.applyEntry (s.engine.walLog.record type id data env).entry = .ok e' → Known s' e')
    (hrotated : (s.engine.append s.disk type id data env).2.2 = true →
      s.engine.walLog.closed = false → ∀ d ∈ s.rotated, Loads d s'.Known) :
    Durable s' := by
  have hclosed : s'.engine.walLog.closed = s.engine.walLog.closed := by
    rw [hlog]
    exact Engine.append_closed _ _ _ _ _ _
  rcases Engine.append_cases s.engine s.disk type id data env with
    ⟨hd, hok, hseq⟩ | ⟨hopen, hd, hseq⟩
  · rw [hd] at hdisk
    rw [← hlog] at hseq
    refine ⟨henrolled, hreported, ⟨?_, ?_, ?_⟩, ?_, ?_⟩
    · intro r hr
      rw [hdisk] at hr
      exact (h.numbered.records r hr).trans hseq
    · intro d hd'
      rw [current_congr hdisk hcheckpointer] at hd'
      exact (h.numbered.snapshots d hd').trans hseq
    · rw [hcheckpointer, hclosed]
      exact h.numbered.closed
    · intro d hd'
      rw [current_congr hdisk hcheckpointer] at hd'
      exact (h.current d hd').mono (hfailed hok)
    · intro d hd'
      rw [rotated_congr (by rw [hdisk]; exact ⟨rfl, rfl⟩) hcheckpointer] at hd'
      exact (h.rotated d hd').mono (hfailed hok)
  · rw [hd] at hdisk
    rw [← hlog] at hseq
    refine ⟨henrolled, hreported, ⟨?_, ?_, ?_⟩, ?_, ?_⟩
    · intro r hr
      rw [hdisk] at hr
      rcases List.mem_append.mp hr with hold | hnew
      · have := h.numbered.records r hold
        omega
      · rw [List.mem_singleton.mp hnew, hseq]
        exact le_rfl
    · intro d hd'
      obtain ⟨d₀, hd₀, rfl⟩ := mem_current_extend hdisk hcheckpointer hd'
      have := h.numbered.snapshots d₀ hd₀
      show d₀.snapSeq ≤ _
      omega
    · rw [hcheckpointer, hclosed]
      exact h.numbered.closed
    · intro d hd'
      obtain ⟨d₀, hd₀, rfl⟩ := mem_current_extend hdisk hcheckpointer hd'
      have hbelow := h.numbered.snapshots d₀ hd₀
      refine (h.current d₀ hd₀).extend hlen hdata ?_ hentry
      intro hle
      have hnum : s.engine.walLog.seq + 1 ≤ d₀.snapSeq := hle
      omega
    · intro d hd'
      rw [rotated_congr (by rw [hdisk]; exact ⟨rfl, rfl⟩) hcheckpointer] at hd'
      cases hok : (s.engine.append s.disk type id data env).2.2 with
      | false =>
          exact (h.rotated d hd').mono (hfailed hok)
      | true =>
          exact hrotated hok hopen d hd'

/-- If a rotation is under way and the log is open, the snapshot has the task like this. -/
def Captured (s : World n m) (id : TaskID) (P : Option TaskState → Prop) : Prop :=
  s.engine.walLog.closed = false → ∀ d ∈ s.rotated, P (d.snapshotState id)

instance (s : World n m) (id : TaskID) (P : Option TaskState → Prop) [DecidablePred P] :
    Decidable (s.Captured id P) :=
  inferInstanceAs (Decidable (s.engine.walLog.closed = false →
    ∀ d ∈ s.rotated, P (d.snapshotState id)))

/--
The condition on an `Append`: no record is longer than `Replay` accepts, and what an
`EntryEnqueue`, `EntryComplete`, `EntryDead` or `EntryCancel` says is in the snapshot if
the log is about to be rotated.
-/
def Captures (s : World n m) : Event n m → Prop
  | .worker w env _ _ =>
      env.bodyLen ≤ Wal.maxBody ∧
        ∀ o ∈ (s.workers w).logsOutcome, s.Captured o.1 (· = some o.2)
  | .call c env =>
      env.bodyLen ≤ Wal.maxBody ∧
        (∀ id ∈ (s.calls c).logsEnqueue, s.Captured id (·.isSome = true)) ∧
        ∀ id ∈ (s.calls c).logsCancel, s.Captured id (· = some .cancelled)
  | _ => True

/-- The record of an outcome is appended for a task that is in that state. -/
theorem Durable.recorded
    {type : Wal.EntryType} {id : TaskID} {data : Engine.EntryData} {env : LogEnv}
    {y : TaskState}
    (h : Durable s)
    (henrolled : Enrolled s')
    (hwrites : writtenState type = some y)
    (hstate : s.engine.stateOf id = some y)
    (hsame : ∀ j, s'.engine.stateOf j = s.engine.stateOf j)
    (hlogged : ∀ j, s'.Logged j → s.Logged j)
    (hdisk : s'.disk = (s.engine.append s.disk type id data env).2.1)
    (hlog : s'.engine.walLog = (s.engine.append s.disk type id data env).1.walLog)
    (hcheckpointer : s'.checkpointer = s.checkpointer)
    (hlen : env.bodyLen ≤ Wal.maxBody)
    (hreported : s'.reported = s.reported ∨
      (s'.reported = (id, y) :: s.reported ∧
        (s.engine.append s.disk type id data env).2.2 = true ∧ y.isLive = false ∧
        s.Logged id ∧ s.Captured id (· = some y))) :
    Durable s' := by
  -- an entry leaves what was reported as it is: for its own task it says the same
  have hold : ∀ e e', Known s e →
      e.applyEntry (s.engine.walLog.record type id data env).entry = .ok e' →
      ∀ j x, (j, x) ∈ s.reported → e'.stateOf j = some x := by
    intro e e' he happly j x hx
    have hset := Engine.applyEntry_sets happly hwrites
    have hj := he.states j x hx
    rcases hset.same_or j with hkept | ⟨hid, hy⟩
    · exact hkept.trans hj
    · have hjid : j = id := hid
      have hst := (h.reported j x hx).1
      rw [hjid, hstate] at hst
      rw [hy, hst]
  refine h.appended henrolled ?_ hdisk hlog hcheckpointer hlen ?_ ?_ ?_ ?_
  · intro j x hx
    rw [hsame]
    rcases hreported with hr | ⟨hr, -, hy, -, -⟩
    · rw [hr] at hx
      exact h.reported j x hx
    · rw [hr] at hx
      rcases List.mem_cons.mp hx with hnew | hx
      · cases hnew
        exact ⟨hstate, hy⟩
      · exact h.reported j x hx
  · intro htype
    rw [htype] at hwrites
    cases hwrites
  · intro hfail e he
    refine ⟨fun j hj => he.tasks j (hlogged j hj), ?_⟩
    rcases hreported with hr | ⟨-, hok, -⟩
    · rw [hr]
      exact he.states
    · rw [hok] at hfail
      cases hfail
  · intro e e' he happly
    refine ⟨fun j hj => Engine.applyEntry_isSome happly (he.tasks j (hlogged j hj)), ?_⟩
    intro j x hx
    rcases hreported with hr | ⟨hr, -, -, hid, -⟩
    · rw [hr] at hx
      exact hold e e' he happly j x hx
    · rw [hr] at hx
      rcases List.mem_cons.mp hx with hnew | hx
      · cases hnew
        exact (Engine.applyEntry_sets happly hwrites).self (he.tasks id hid)
      · exact hold e e' he happly j x hx
  · intro hok hopen d hd
    refine ((h.rotated d hd).of_snapshotState (walBin_of_rotated hd)).mono ?_
    rintro e ⟨he, hsnap⟩
    refine ⟨fun j hj => he.tasks j (hlogged j hj), ?_⟩
    intro j x hx
    rcases hreported with hr | ⟨hr, -, -, -, hcaptured⟩
    · rw [hr] at hx
      exact he.states j x hx
    · rw [hr] at hx
      rcases List.mem_cons.mp hx with hnew | hx
      · cases hnew
        rw [hsnap]
        exact hcaptured hopen d hd
      · exact he.states j x hx

theorem workerStep_durable
    {w : Fin n} {env : LogEnv} {result : Option HandlerError} {delay : Duration}
    (h : Durable s)
    (hok : s.Orderly (.worker w env result delay))
    (hcaptures : s.Captures (.worker w env result delay))
    (hstep : WorkerStep s w env s') :
    Durable s' := by
  have henrolled := workerStep_enrolled h.enrolled hok hstep
  have hagreement := h.enrolled.agreement
  have hcalls : ∀ c, s'.calls c = s.calls c := fun c => hstep.acted.calls c (by simp)
  have hlogged : ∀ j, s'.Logged j → s.Logged j :=
    fun j => (logged_congr hstep.sameTasks hcalls).mp
  have hstable : ∀ id x, s.engine.stateOf id = some x → x.isLive = false →
      s'.engine.stateOf id = some x := by
    intro id x hid hx
    exact stateOf_of_stable (hstep.stable hagreement) hid hx
  have hexpects : ∀ id ∈ (s.workers w).holds,
      s.engine.stateOf id = (s.workers w).expects ∧ s.Logged id := by
    intro id hid
    refine ⟨hagreement.states (.worker w) id hid,
      hagreement.custody.logged (p := .worker w) hid ?_⟩
    intro c hc
    cases hc
  obtain ⟨hlen, houtcome⟩ := hcaptures
  cases hstep with
  | @logStart id hpc =>
      obtain ⟨hst, -⟩ := hexpects id (by simp [hpc, WorkerPc.holds])
      rw [hpc] at hst
      exact h.recorded henrolled (y := .running) rfl hst (fun _ => rfl)
        hlogged rfl rfl rfl hlen (Or.inl rfl)
  | @logRetry id err hpc =>
      obtain ⟨hst, -⟩ := hexpects id (by simp [hpc, WorkerPc.holds])
      rw [hpc] at hst
      exact h.recorded henrolled (y := .scheduled) rfl hst (fun _ => rfl)
        hlogged rfl rfl rfl hlen (Or.inl rfl)
  | @logComplete id hpc =>
      obtain ⟨hst, hid⟩ := hexpects id (by simp [hpc, WorkerPc.holds])
      rw [hpc] at hst
      have hcaptured := houtcome (id, .completed) (by rw [hpc]; rfl)
      refine h.recorded henrolled (y := .completed) rfl hst (fun _ => rfl)
        hlogged rfl rfl rfl hlen ?_
      by_cases happ : (s.engine.append s.disk .complete id .nil env).2.2 = true
      · exact Or.inr ⟨if_pos happ, happ, rfl, hid, hcaptured⟩
      · exact Or.inl (if_neg happ)
  | @logDead id err hpc =>
      obtain ⟨hst, hid⟩ := hexpects id (by simp [hpc, WorkerPc.holds])
      rw [hpc] at hst
      have hcaptured := houtcome (id, .dead) (by rw [hpc]; rfl)
      refine h.recorded henrolled (y := .dead) rfl hst (fun _ => rfl)
        hlogged rfl rfl rfl hlen ?_
      by_cases happ : (s.engine.append s.disk .dead id (.ofText err.text) env).2.2 = true
      · exact Or.inr ⟨if_pos happ, happ, rfl, hid, hcaptured⟩
      · exact Or.inl (if_neg happ)
  | @write id outcome hpc =>
      exact absurd hpc (hagreement.unwritten w id outcome)
  | _ =>
      exact h.quiet henrolled rfl rfl rfl rfl hstable hlogged

theorem schedulerStep_durable
    {now : Time}
    (h : Durable s)
    (hok : s.Orderly (.scheduler now))
    (hstep : SchedulerStep s now s') :
    Durable s' := by
  have hagreement := h.enrolled.agreement
  have hcalls : ∀ c, s'.calls c = s.calls c := fun c => hstep.acted.calls c (by simp)
  have hlogged : ∀ j, s'.Logged j → s.Logged j :=
    fun j => (logged_congr hstep.sameTasks hcalls).mp
  have hstable : ∀ id x, s.engine.stateOf id = some x → x.isLive = false →
      s'.engine.stateOf id = some x := by
    intro id x hid hx
    exact stateOf_of_stable (hstep.stable hagreement hok) hid hx
  have henrolled := schedulerStep_enrolled h.enrolled hok hstep
  cases hstep <;> exact h.quiet henrolled rfl rfl rfl rfl hstable hlogged

section Call

variable {c : Fin m} {env : LogEnv}

/-- The record of a new task is appended, or its `Append` fails. -/
theorem Durable.enqueued
    {task data : Task}
    (h : Durable s)
    (henrolled : Enrolled s')
    (hpc : s.calls c = .marshalled task data)
    (hsame : ∀ j, s'.engine.stateOf j = s.engine.stateOf j)
    (hdisk : s'.disk = (s.engine.append s.disk .enqueue task.id (.ofTask data) env).2.1)
    (hlog : s'.engine.walLog =
      (s.engine.append s.disk .enqueue task.id (.ofTask data) env).1.walLog)
    (hcheckpointer : s'.checkpointer = s.checkpointer)
    (hreported : s'.reported = s.reported)
    (hlen : env.bodyLen ≤ Wal.maxBody)
    (hlogged : ∀ j, s'.Logged j → s.Logged j ∨ (j = task.id ∧
      (s.engine.append s.disk .enqueue task.id (.ofTask data) env).2.2 = true))
    (hcaptured : s.Captured task.id (·.isSome = true)) :
    Durable s' := by
  have hname := h.enrolled.named c task data hpc
  have hlive : s.engine.live task.id = true :=
    h.enrolled.agreement.submitted (c := c) (by simp [hpc, CallPc.holds])
  refine h.appended henrolled ?_ hdisk hlog hcheckpointer hlen (fun _ => rfl) ?_ ?_ ?_
  · intro j x hx
    rw [hreported] at hx
    rw [hsame]
    exact h.reported j x hx
  · intro hfail e he
    refine ⟨?_, by rw [hreported]; exact he.states⟩
    intro j hj
    rcases hlogged j hj with hold | ⟨-, hok⟩
    · exact he.tasks j hold
    · rw [hok] at hfail
      cases hfail
  · intro e e' he happly
    have he' : e' = e.register data := by
      simpa [Engine.applyEntry, Log.record, Engine.EntryData.ofTask] using happly.symm
    have hget := e.get_register data
    refine ⟨?_, ?_⟩
    · intro j hj
      rw [he', hget, hname]
      split_ifs with hself
      · rfl
      · rcases hlogged j hj with hold | ⟨hnew, -⟩
        · exact he.tasks j hold
        · exact absurd hnew hself
    · intro j x hx
      rw [hreported] at hx
      obtain ⟨hst, hnot⟩ := h.reported j x hx
      have hne : j ≠ data.id := by
        rw [hname]
        rintro rfl
        rw [Engine.live, hst] at hlive
        exact absurd hlive (by simp [hnot])
      rw [he', Engine.stateOf, hget, if_neg hne]
      exact he.states j x hx
  · intro hok hopen d hd
    refine ((h.rotated d hd).of_snapshotState (walBin_of_rotated hd)).mono ?_
    rintro e ⟨he, hsnap⟩
    refine ⟨?_, by rw [hreported]; exact he.states⟩
    intro j hj
    rcases hlogged j hj with hold | ⟨rfl, -⟩
    · exact he.tasks j hold
    · have hsome := hcaptured hopen d hd
      rw [← hsnap, Engine.stateOf, Option.isSome_map] at hsome
      exact hsome

theorem callStep_durable
    (h : Durable s)
    (hcaptures : s.Captures (.call c env))
    (hstep : CallStep s c env s') :
    Durable s' := by
  have henrolled := callStep_enrolled h.enrolled hstep
  have hagreement := h.enrolled.agreement
  have hlogged : ∀ j, s'.Logged j → s.Logged j ∨ s'.calls c = .logged j :=
    fun j hj => hstep.logged_of hj
  have hstable : ∀ id x, s.engine.stateOf id = some x → x.isLive = false →
      s'.engine.stateOf id = some x := by
    intro id x hid hx
    exact stateOf_of_stable (hstep.stable hagreement) hid hx
  -- a task that a `CancelTask` has marked is no `Submit`'s any more
  have hcancelling : ∀ id, s.calls c = .cancelling id →
      s.engine.stateOf id = some .cancelled ∧ s.Logged id := by
    intro id hpc
    have hst := hagreement.marked c id (by rw [hpc]; rfl)
    refine ⟨hst, ?_, ?_⟩
    · rw [Engine.stateOf] at hst
      obtain ⟨t, ht, -⟩ := Option.map_eq_some_iff.mp hst
      rw [ht]
      rfl
    · intro c' hc'
      have hlive := hagreement.submitted ((s.calls c').unlogged_subset hc')
      rw [Engine.live, hst] at hlive
      cases hlive
  obtain ⟨hlen, henqueue, hcancel⟩ := hcaptures
  cases hstep with
  | @logEnqueue task data hpc hok =>
      have hcaptured := henqueue task.id (by rw [hpc]; rfl)
      refine h.enqueued henrolled hpc (fun _ => rfl) rfl rfl rfl rfl hlen ?_ hcaptured
      intro j hj
      refine (hlogged j hj).imp_right ?_
      intro hself
      simp only [toCall, Function.update_self, CallPc.logged.injEq] at hself
      exact ⟨hself.symm, hok⟩
  | @failEnqueue task data hpc hok =>
      have hcaptured := henqueue task.id (by rw [hpc]; rfl)
      refine h.enqueued henrolled hpc (fun _ => rfl) rfl rfl rfl rfl hlen ?_ hcaptured
      intro j hj
      refine (hlogged j hj).imp_right ?_
      intro hself
      simp [toCall] at hself
  | @logCancel id hpc hok =>
      have hcaptured := hcancel id (by rw [hpc]; rfl)
      obtain ⟨hst, hid⟩ := hcancelling id hpc
      refine h.recorded henrolled (y := .cancelled) rfl hst (fun _ => rfl) ?_ rfl rfl rfl
        hlen (Or.inr ⟨rfl, hok, rfl, hid, hcaptured⟩)
      intro j hj
      refine (hlogged j hj).resolve_right ?_
      simp [toCall, report]
  | @failCancel id hpc hok =>
      obtain ⟨hst, -⟩ := hcancelling id hpc
      refine h.recorded henrolled (y := .cancelled) rfl hst (fun _ => rfl) ?_ rfl rfl rfl
        hlen (Or.inl rfl)
      intro j hj
      refine (hlogged j hj).resolve_right ?_
      simp [toCall]
  | _ =>
      refine h.quiet henrolled rfl rfl rfl rfl hstable ?_
      intro j hj
      refine (hlogged j hj).resolve_right ?_
      simp [toCall]

theorem submitStep_durable
    {task : Task} {generatedID : TaskID} {now : Time}
    (h : Durable s)
    (hstep : s.submitStep c task generatedID now = some s') :
    Durable s' := by
  have henrolled := submitStep_enrolled h.enrolled hstep
  have hlogged := fun id => (submitStep_logged_iff h.enrolled.agreement.custody hstep id).mp
  have hstable : ∀ id x, s.engine.stateOf id = some x → x.isLive = false →
      s'.engine.stateOf id = some x := fun id x hid hx =>
    step_stable (.submit c task generatedID now) h.enrolled.agreement trivial hstep hid hx
  rcases submitStep_cases hstep with rfl | ⟨-, -, -, rfl⟩
  · exact h
  · exact h.quiet henrolled rfl rfl rfl rfl hstable hlogged

theorem cancelStep_durable
    {id : TaskID} {now : Time}
    (h : Durable s)
    (hok : s.Orderly (.cancel c id now))
    (hstep : s.cancelStep c id now = some s') :
    Durable s' := by
  have henrolled := cancelStep_enrolled h.enrolled hok hstep
  have hlogged := fun j => (cancelStep_logged_iff hstep j).mp
  have hstable : ∀ j x, s.engine.stateOf j = some x → x.isLive = false →
      s'.engine.stateOf j = some x := fun j x hj hx =>
    step_stable (.cancel c id now) h.enrolled.agreement hok hstep hj hx
  rcases cancelStep_cases hstep with rfl | ⟨-, -, -, -, rfl⟩
  · exact h
  · exact h.quiet henrolled rfl rfl rfl rfl hstable hlogged

end Call

section Checkpoint

theorem Unmoved.enrolled
    (hsame : Unmoved s s')
    (h : Enrolled s)
    (hcustody : Custody s') :
    Enrolled s' := by
  refine ⟨hsame.agreement h.agreement hcustody, ?_, ?_⟩
  · intro c task data hpc
    rw [hsame.calls] at hpc
    exact h.named c task data hpc
  · intro id hid
    rw [hsame.accepted] at hid
    exact hsame.logged_iff.mpr (h.accepted id hid)

theorem Unmoved.known
    (hsame : Unmoved s s')
    {e : Engine}
    (h : Known s e) :
    Known s' e := by
  refine ⟨fun id hid => h.tasks id (hsame.logged_iff.mp hid), ?_⟩
  rw [hsame.reported]
  exact h.states

/-- The snapshot of the registry has all that `Recover` has to find. -/
theorem Durable.takeSnapshot
    (h : Durable s)
    {order : List TaskID}
    (horder : s.engine.tasks.Enumerates order)
    (cfg : Engine.Config) :
    Known s ((Engine.new cfg).loadSnapshot (some (s.engine.takeSnapshot order))) := by
  have hget := Engine.get_loadSnapshot
    (fun id t ht => (h.enrolled.agreement.custody.named id t ht).1) order (Engine.new cfg)
  have hmem : ∀ id, (s.engine.tasks.get id).isSome = true →
      ((Engine.new cfg).loadSnapshot (some (s.engine.takeSnapshot order))).tasks.get id =
        (s.engine.tasks.get id).map Wal.throughSnapshot := by
    intro id hid
    rw [hget id, if_pos ⟨horder.mem.mpr hid, hid⟩]
  refine ⟨?_, ?_⟩
  · intro id hid
    rw [hmem id hid.1, Option.isSome_map]
    exact hid.1
  · intro id x hx
    have hst := (h.reported id x hx).1
    rw [Engine.stateOf] at hst
    obtain ⟨t, ht, htx⟩ := Option.map_eq_some_iff.mp hst
    rw [Engine.stateOf, hmem id (by rw [ht]; rfl), ht]
    simpa using htx

/-- A step after which a crash can only leave the directory as it is. -/
theorem Durable.settled
    (henrolled : Enrolled s)
    (hreported : ∀ id x, (id, x) ∈ s.reported →
      s.engine.stateOf id = some x ∧ x.isLive = false)
    (hcurrent : s.current = [s.disk])
    (hrecords : ∀ r ∈ s.disk.walBin, r.entry.seq ≤ s.engine.walLog.seq)
    (hbelow : s.disk.snapSeq ≤ s.engine.walLog.seq)
    (hclosed : s.checkpointer = .closed ∨ s.checkpointer = .renamed →
      s.engine.walLog.closed = true)
    (hdisk : Loads s.disk s.Known)
    (hrotated : ∀ d ∈ s.rotated, Loads d s.Known) :
    Durable s := by
  refine ⟨henrolled, hreported, ⟨hrecords, ?_, hclosed⟩, ?_, hrotated⟩
  · intro d hd
    rw [hcurrent, List.mem_singleton] at hd
    rw [hd]
    exact hbelow
  · intro d hd
    rw [hcurrent, List.mem_singleton] at hd
    rw [hd]
    exact hdisk

theorem checkpointStep_durable
    {order : List TaskID}
    (h : Durable s)
    (hstep : s.checkpointStep order = some s') :
    Durable s' := by
  have hsame := checkpointStep_unmoved hstep
  have henrolled := hsame.enrolled h.enrolled
    (checkpointStep_custody h.enrolled.agreement.custody hstep)
  have hreported : ∀ id x, (id, x) ∈ s'.reported →
      s'.engine.stateOf id = some x ∧ x.isLive = false := by
    intro id x hx
    rw [hsame.reported] at hx
    rw [hsame.stateOf]
    exact h.reported id x hx
  have hcurrent : ∀ d ∈ s.current, Loads d s'.Known :=
    fun d hd => (h.current d hd).mono (fun _ => hsame.known)
  have hrotated : ∀ d ∈ s.rotated, Loads d s'.Known :=
    fun d hd => (h.rotated d hd).mono (fun _ => hsame.known)
  have hdisk := hcurrent s.disk (mem_current_disk s)
  have hbelow := h.numbered.snapshots s.disk (mem_current_disk s)
  unfold checkpointStep at hstep
  cases hpc : s.checkpointer with
  | idle =>
      simp only [hpc] at hstep
      split_ifs at hstep with horder
      cases hstep
      have hsnap := fun cfg => hsame.known (h.takeSnapshot horder cfg)
      refine ⟨henrolled, hreported, ⟨h.numbered.records, ?_, by simp⟩, ?_, ?_⟩
      · intro d hd
        simp only [World.current, List.mem_cons, List.not_mem_nil, or_false] at hd
        rcases hd with rfl | rfl
        · exact hbelow
        · exact le_rfl
      · intro d hd
        simp only [World.current, List.mem_cons, List.not_mem_nil, or_false] at hd
        rcases hd with rfl | rfl
        · exact hdisk
        · exact hdisk.snapshot h.numbered.records hsnap
      · intro d hd
        cases hd
        intro cfg
        exact ⟨_, 0, rfl, hsnap cfg⟩
  | copied snap =>
      simp only [hpc, Option.some.injEq] at hstep
      subst hstep
      have hmem : { s.disk with snapshot := some snap } ∈ s.current := by
        simp [World.current, hpc]
      refine Durable.settled henrolled hreported rfl h.numbered.records
        (h.numbered.snapshots _ hmem) (by simp) (hcurrent _ hmem) ?_
      intro d hd
      cases hd
      exact hrotated _ (by simp [World.rotated, hpc])
  | written =>
      simp only [hpc, Option.some.injEq] at hstep
      subst hstep
      refine Durable.settled henrolled hreported rfl h.numbered.records hbelow
        (fun _ => rfl) hdisk ?_
      intro d hd
      cases hd
      exact hrotated _ (by simp [World.rotated, hpc])
  | closed =>
      simp only [hpc, Option.some.injEq] at hstep
      subst hstep
      have hempty := hrotated { s.disk with walBin := [] } (by simp [World.rotated, hpc])
      have hclosed := h.numbered.closed (Or.inl hpc)
      refine Durable.settled henrolled hreported rfl ?_ hbelow (fun _ => hclosed) hempty ?_
      · intro r hr
        cases hr
      · intro d hd
        cases hd
  | renamed =>
      simp only [hpc, Option.some.injEq] at hstep
      subst hstep
      refine Durable.settled henrolled hreported rfl h.numbered.records hbelow (by simp)
        hdisk ?_
      intro d hd
      cases hd

end Checkpoint

theorem step_durable
    (s : World n m) (e : Event n m) (s' : World n m)
    (h : Durable s)
    (hok : s.Orderly e ∧ s.Captures e)
    (hstep : s.step e = some s') :
    Durable s' := by
  cases e with
  | worker w env result delay =>
      exact workerStep_durable h hok.1 hok.2 (workerStep_cases hstep)
  | scheduler now =>
      exact schedulerStep_durable h hok.1 (schedulerStep_cases hstep)
  | submit c task generatedID now =>
      exact submitStep_durable h hstep
  | cancel c id now =>
      exact cancelStep_durable h hok.1 hstep
  | call c env =>
      exact callStep_durable h hok.2 (callStep_cases hstep)
  | checkpoint order =>
      exact checkpointStep_durable h hstep

/-- The counter of the log is not behind the directory that the process started from. -/
def CounterAhead (e : Engine) (d : Disk) : Prop :=
  d.snapSeq ≤ e.walLog.seq ∧ ∀ r ∈ d.walBin, r.entry.seq ≤ e.walLog.seq

theorem start_durable
    {cfg : Engine.Config} {d : Disk} {order : List TaskID} {e : Engine}
    (h : Engine.Recovered cfg d order e)
    (hcounter : CounterAhead e d) :
    Durable (start e d order : World n m) := by
  have hagreement : Agreement True (start e d order : World n m) := start_agreement h
  obtain ⟨loaded, last, hload, -, hall⟩ := h.restarted
  refine ⟨⟨hagreement, ?_, ?_⟩, ?_, ⟨hcounter.2, ?_, by simp [start]⟩, ?_, ?_⟩
  · intro c task data hpc
    cases hpc
  · intro id hid
    cases hid
  · intro id x hx
    cases hx
  · intro d' hd
    simp only [World.current, start, List.mem_singleton] at hd
    rw [hd]
    exact hcounter.1
  · intro d' hd cfg'
    simp only [World.current, start, List.mem_singleton] at hd
    rw [hd]
    obtain ⟨loaded', hload', htasks⟩ := Engine.loadTasks_settings hload cfg'
    refine ⟨loaded', last, hload', ?_, ?_⟩
    · intro id hid
      have hreg : (e.tasks.get id).isSome = true := hid.1
      rw [hall.tasks id, Option.isSome_map] at hreg
      rw [htasks]
      exact hreg
    · intro id x hx
      cases hx
  · intro d' hd
    cases hd

/--
A crash now loses nothing: `Recover` can read the directory, and every engine that it
gives has the accepted tasks and the outcomes whose records were appended.
-/
def CrashSafe (s : World n m) : Prop :=
  (∀ cfg, ∃ loaded last, Engine.loadTasks cfg s.disk = .ok (loaded, last)) ∧
  ∀ cfg order e, Engine.Recovered cfg s.disk order e →
    (∀ id ∈ s.accepted, (e.tasks.get id).isSome = true) ∧
    ∀ id x, (id, x) ∈ s.reported → e.stateOf id = some x

/-- `rebuildQueues` leaves a task alone that does not have to run. -/
theorem Durable.crashSafe
    (h : Durable s) :
    CrashSafe s := by
  have hdisk := h.current s.disk (mem_current_disk s)
  refine ⟨?_, ?_⟩
  · intro cfg
    obtain ⟨loaded, last, hload, -⟩ := hdisk cfg
    exact ⟨loaded, last, hload⟩
  · intro cfg order e hrec
    obtain ⟨loaded, last, hload, -, hall⟩ := hrec.restarted
    obtain ⟨loaded', last', hload', hknown⟩ := hdisk cfg
    rw [hload] at hload'
    cases hload'
    refine ⟨?_, ?_⟩
    · intro id hid
      rw [hall.tasks id, Option.isSome_map]
      exact hknown.tasks id (h.enrolled.accepted id hid)
    · intro id x hx
      have hst := hknown.states id x hx
      have hnot := (h.reported id x hx).2
      rw [Engine.stateOf] at hst
      obtain ⟨t, ht, rfl⟩ := Option.map_eq_some_iff.mp hst
      have hrun : t.state ≠ .running := by
        intro hrunning
        rw [hrunning] at hnot
        cases hnot
      rw [Engine.stateOf, hall.tasks id, ht]
      simp [Engine.requeue, hrun]

/--
In every run of a recovered engine whose counter is not behind its directory, with any
number of checkpoints: as long as the threads are orderly, and a record that is appended
during a checkpoint, before the log is closed, says nothing that the snapshot does not
have, a crash at any point loses nothing.
-/
theorem checkpoint_keeps
    (cfg : Engine.Config) (d : Disk) (order : List TaskID) (e : Engine)
    (es : List (Event n m)) (s : World n m)
    (hrec : Engine.Recovered cfg d order e)
    (hcounter : CounterAhead e d)
    (hrun : Lib.Run step (fun s ev => s.Orderly ev ∧ s.Captures ev) (start e d order) es s) :
    CrashSafe s :=
  (hrun.invariant Durable step_durable (start_durable hrec hcounter)).crashSafe

instance (s : World n m) (e : Event n m) : Decidable (s.Captures e) :=
  Event.decidable
    (fun w _ _ _ =>
      inferInstanceAs (Decidable (_ ∧ ∀ o ∈ (s.workers w).logsOutcome, s.Captured o.1 _)))
    (fun _ => instDecidableTrue) (fun _ _ _ _ => instDecidableTrue)
    (fun _ _ _ => instDecidableTrue)
    (fun c _ =>
      inferInstanceAs (Decidable (_ ∧ (∀ id ∈ (s.calls c).logsEnqueue, s.Captured id _) ∧
        ∀ id ∈ (s.calls c).logsCancel, s.Captured id _)))
    (fun _ => instDecidableTrue) e

/-- A task is registered, the registry is copied, the task is logged, and the log goes. -/
def submitAcross : List (Event 1 1) :=
  .submit 0 Task.zero "a" 10 :: .checkpoint ["a"] ::
    List.replicate 4 (.call 0 (.noError 20 300)) ++ List.replicate 4 (.checkpoint [])

theorem checkpoint_keeps_submitAcross :
    ∃ s : World 1 1,
      Lib.Run step (fun s ev => s.Orderly ev ∧ s.Captures ev) (initial System.roomyConfig)
        submitAcross s ∧
      (s.accepted = ["a"] ∧ s.checkpointer = .idle ∧ s.disk.walBin = []) ∧ CrashSafe s := by
  obtain ⟨s, hrun, hs⟩ :=
    Lib.exists_run_of_exec step (fun s ev => s.Orderly ev ∧ s.Captures ev)
      (fun s : World 1 1 => s.accepted = ["a"] ∧ s.checkpointer = .idle ∧ s.disk.walBin = [])
      (initial System.roomyConfig) submitAcross (by decide +kernel)
  exact ⟨s, hrun, hs,
    checkpoint_keeps System.roomyConfig Disk.empty [] _ submitAcross s
      (recovered_initial System.roomyConfig)
      ⟨Nat.zero_le _, fun r hr => by cases hr⟩ hrun⟩

/-- The registry is copied, a task is accepted, and the log goes. -/
def submitAfterCopy : List (Event 1 1) :=
  .checkpoint [] :: wholeSubmit 0 Task.zero "a" 10 ++ List.replicate 4 (.checkpoint [])

/-- Neither the snapshot nor the new log has the task. -/
theorem checkpoint_losesTask :
    ∃ s : World 1 1,
      Lib.Run step (fun _ _ => True) (initial System.roomyConfig) submitAfterCopy s ∧
      ¬ CrashSafe s := by
  obtain ⟨s, hrun, hacc, hbin, hsnap⟩ :=
    Lib.exists_run_of_exec step (fun _ _ => True)
      (fun s : World 1 1 => "a" ∈ s.accepted ∧
        (s.disk.walBin = [] ∧ s.disk.snapshot = some ⟨0, []⟩))
      (initial System.roomyConfig) submitAfterCopy (by decide +kernel)
  refine ⟨s, hrun, ?_⟩
  rintro ⟨-, hsafe⟩
  have hrec : Engine.Recovered System.roomyConfig s.disk []
      (System.initial System.roomyConfig).engine := by
    generalize s.disk = d at hbin hsnap
    obtain ⟨snap, bin, old⟩ := d
    cases hbin
    cases hsnap
    exact ⟨rfl, rfl⟩
  have hmissing := (hsafe System.roomyConfig [] _ hrec).1 "a" hacc
  cases hmissing

end World
end TaskQueue
