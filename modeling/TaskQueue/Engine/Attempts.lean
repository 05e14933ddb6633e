import Mathlib.Tactic
import TaskQueue.Engine.Places

/-!
# The retry limit over restarts

A task should be started at most `max(MaxRetries, 0) + 1` times, an execution that a kill
interrupts counting as a failed attempt.  `rebuildQueues` counts it, but in memory only,
and it does not compare the count with the limit: a task that is interrupted again and
again is started again and again (`interrupted_startsAgain`).  `limit_kept` shows that the
limit holds if a kill finds no task at work that it has interrupted before, since the last
record with its count, or that has no retry left.
-/

namespace TaskQueue

open Lib (GoMap)
open Queue
open Wal (Log LogEnv LogRecord Snapshot)

namespace Engine

/-- The states of a task that waits for a worker, as far as the log knows. -/
def waits : TaskState → Bool
  | .pending | .scheduled | .expired => true
  | _ => false

/-- The number of retries that a task has. -/
def budget (t : Task) : Int :=
  max t.maxRetries 0

theorem requeue_of_ne_running
    {t : Task}
    (h : t.state ≠ .running) :
    requeue t = t :=
  if_neg h

theorem requeue_retryCount_of_running
    {t : Task}
    (h : t.state = .running) :
    (requeue t).retryCount = t.retryCount + 1 := by
  rw [requeue, if_pos h]

theorem requeue_requeue
    (t : Task) :
    requeue (requeue t) = requeue t :=
  requeue_of_ne_running (requeue_ne_running t)

theorem requeue_throughSnapshot
    (t : Task) :
    (requeue (Wal.throughSnapshot t)).retryCount = (requeue t).retryCount := by
  unfold requeue
  rw [Wal.throughSnapshot_state]
  split_ifs <;> rfl

theorem prepare_retryCount
    (e : Engine) (task : Task) (generatedID : TaskID) (now : Time) :
    (e.prepare task generatedID now).retryCount = task.retryCount := by
  unfold prepare withInitialState
  split_ifs <;> rfl

end Engine

/--
The system with two histories: the starts of the user handler, and the tasks that a kill
has interrupted and whose count in the directory does not have that yet.
-/
structure Trial where
  sys : System
  starts : List TaskID
  raised : List TaskID

namespace Trial

open Engine (HandlerError Durably Related budget waits requeue submissionOf)
open TaskQueue.System (Event Sound Placed)

/-- The start of a run, on an empty directory. -/
def initial (cfg : Engine.Config) : Trial where
  sys := System.initial cfg
  starts := []
  raised := []

/-- A start adds the task at the front of the buffer. -/
def startsAfter (s : Trial) : Event → List TaskID
  | .start _ _ =>
      match s.sys.engine.buffer.dequeue with
      | .done id _ => id :: s.starts
      | _ => s.starts
  | _ => s.starts

/-- A kill adds the tasks at work; a record with the count, or a snapshot, removes them. -/
def raisedAfter (s : Trial) : Event → List TaskID
  | .finish id _ _ _ _ => s.raised.filter fun j => decide (j ≠ id)
  | .checkpoint _ => []
  | .shutdown _ _ _ => []
  | .kill _ _ => s.sys.hands ++ s.raised
  | _ => s.raised

/-- The steps of the system, with the histories. -/
def step (s : Trial) (e : Event) : Option Trial :=
  (s.sys.step e).map fun sys =>
    { sys := sys, starts := s.startsAfter e, raised := s.raisedAfter e }

/-- How often the handler has been started for a task. -/
def attempts (s : Trial) (id : TaskID) : Int :=
  s.starts.count id

/--
No task is started too often, and one whose attempts are used up is in its last execution,
or at its end and not queued any more.
-/
def WithinLimit (s : Trial) : Prop :=
  ∀ id t, s.sys.engine.tasks.get id = some t →
    s.attempts id ≤ max t.maxRetries 0 + 1 ∧
      (s.attempts id = max t.maxRetries 0 + 1 →
        id ∈ s.sys.hands ∨
          ((t.state = .completed ∨ t.state = .dead) ∧ s.sys.held id = 0))

/-- The counter of the log is not below the number of the snapshot. -/
def Counts (s : Trial) : Prop :=
  s.sys.disk.snapSeq ≤ s.sys.engine.walLog.seq

instance (s : Trial) : Decidable s.Counts :=
  inferInstanceAs (Decidable (_ ≤ _))

/--
The condition on a step: a kill finds at work only tasks with a retry left and with no
interruption that the directory does not know of; the records that are due are written, are not
skipped by `Recover`, and have their numbers as `float64`; new tasks have no failed attempts.
-/
def Spared (s : Trial) : Event → Prop
  | .submit task generatedID now len =>
      s.sys.engine.LogsSubmit task generatedID now (LogEnv.noError now len) →
        s.Counts ∧ task.retryCount = 0
  | .cancel id _ len =>
      ∀ t ∈ s.sys.engine.tasks.get id, Engine.cancellable t.state = true →
        s.Counts ∧ len ≤ Wal.maxUint32
  | .start _ len => s.Counts ∧ len ≤ Wal.maxUint32
  | .finish id _ _ _ len =>
      s.Counts ∧ len ≤ Wal.maxUint32 ∧
        ∀ t ∈ s.sys.engine.tasks.get id, (t.retryCount + 1).natAbs ≤ 2 ^ 53
  | .kill _ _ =>
      ∀ id ∈ s.sys.hands, id ∉ s.raised ∧
        ∀ t ∈ s.sys.engine.tasks.get id, t.retryCount + 1 ≤ max t.maxRetries 0
  | _ => True

instance (s : Trial) (e : Event) : Decidable (s.Spared e) :=
  System.Event.decidable
    (fun _ _ _ _ => inferInstanceAs (Decidable (_ → _ ∧ _)))
    (fun _ => instDecidableTrue)
    (fun id _ _ => inferInstanceAs (Decidable (∀ t ∈ s.sys.engine.tasks.get id, _ → _ ∧ _)))
    (fun _ => instDecidableTrue) (fun _ _ => instDecidableTrue)
    (fun _ _ => inferInstanceAs (Decidable (_ ∧ _)))
    (fun id _ _ _ _ => inferInstanceAs (Decidable (_ ∧ _ ∧ ∀ t ∈ s.sys.engine.tasks.get id, _)))
    (fun _ => instDecidableTrue) (fun _ _ _ => instDecidableTrue)
    (fun _ _ => inferInstanceAs (Decidable (∀ id ∈ s.sys.hands, _ ∧
      ∀ t ∈ s.sys.engine.tasks.get id, _))) e

/-- The task may be started again in this process or in the next. -/
def Open (s : Trial) (t : Task) : Prop :=
  0 < s.sys.held t.id ∨
    (t.state ≠ .completed ∧ t.state ≠ .dead ∧ t.state ≠ .cancelled)

/-- The attempts of a live task: as many as a restart would make of its count. -/
structure Within (s : Trial) (t : Task) : Prop where
  bound : s.attempts t.id ≤ budget t + 1
  waiting : t.state ≠ .running → t.state ≠ .completed → t.state ≠ .dead →
    s.attempts t.id ≤ budget t
  exact : s.Open t → s.attempts t.id = (requeue t).retryCount

/-- A live task against the one in the directory. -/
structure Recorded (s : Trial) (t t' : Task) : Prop where
  submission : submissionOf t' = submissionOf t
  states : t'.state = t.state ∨ (waits t.state = true ∧
    (waits t'.state = true ∨ (t'.state = .running ∧ t.id ∈ s.raised)))
  logged : t.id ∈ s.raised → waits t'.state = false
  exact : s.Open t → (t.id ∈ s.raised → t.state ≠ .running ∧ t.state ≠ .cancelled) →
    s.attempts t.id = (requeue t').retryCount

/-- The invariant: the attempts of every task, live and in the directory. -/
structure Counted (s : Trial) : Prop where
  sound : Sound s.sys
  placed : Placed s.sys
  live : ∀ id t, s.sys.engine.tasks.get id = some t → s.Within t
  disk : Durably s.sys.disk (Related s.Recorded s.sys.engine)
  started : ∀ id ∈ s.starts, id ∈ s.sys.issued
  noted : ∀ id ∈ s.raised, id ∈ s.sys.issued

theorem Counted.withinLimit
    {s : Trial}
    (h : Counted s) :
    WithinLimit s := by
  intro id t ht
  have hid : t.id = id := (h.sound.named id t ht).1
  have hstate : s.sys.engine.stateOf id = some t.state := by
    rw [Engine.stateOf, ht, Option.map_some]
  have hwithin := h.live id t ht
  have hbound := hwithin.bound
  have hwaiting := hwithin.waiting
  rw [hid, budget] at hbound hwaiting
  refine ⟨hbound, ?_⟩
  intro hused
  by_cases hrunning : t.state = .running
  · left
    exact h.placed.running id (by rw [hstate, hrunning])
  · right
    have hend : t.state = .completed ∨ t.state = .dead := by
      by_contra hnot
      rw [not_or] at hnot
      have hle := hwaiting hrunning hnot.1 hnot.2
      omega
    exact ⟨hend, h.placed.held_eq_zero hstate hend⟩

theorem Within.mono
    {s s' : Trial} {t : Task}
    (h : s.Within t)
    (hattempts : s'.attempts t.id = s.attempts t.id)
    (hheld : 0 < s'.sys.held t.id → 0 < s.sys.held t.id) :
    s'.Within t := by
  refine ⟨?_, ?_, ?_⟩
  · rw [hattempts]
    exact h.bound
  · rw [hattempts]
    exact h.waiting
  · intro hopen
    rw [hattempts]
    exact h.exact (hopen.imp_left hheld)

theorem Recorded.mono
    {s s' : Trial} {t t' : Task}
    (h : s.Recorded t t')
    (hattempts : s'.attempts t.id = s.attempts t.id)
    (hheld : 0 < s'.sys.held t.id → 0 < s.sys.held t.id)
    (hraised : t.id ∈ s'.raised ↔ t.id ∈ s.raised) :
    s'.Recorded t t' := by
  refine ⟨h.submission, ?_, ?_, ?_⟩
  · rw [hraised]
    exact h.states
  · rw [hraised]
    exact h.logged
  · intro hopen hfree
    rw [hraised] at hfree
    rw [hattempts]
    exact h.exact (hopen.imp_left hheld) hfree

/-- A task that waits goes on waiting in another state. -/
theorem Within.shifted
    {s s' : Trial} {t u : Task}
    (h : s.Within t)
    (hwaits : waits t.state = true)
    (hwaits' : waits u.state = true)
    (hsame : submissionOf u = submissionOf t)
    (hcount : u.retryCount = t.retryCount)
    (hattempts : s'.attempts t.id = s.attempts t.id) :
    s'.Within u := by
  have hid : u.id = t.id := congrArg Engine.Submission.id hsame
  have hmax : u.maxRetries = t.maxRetries := congrArg Engine.Submission.maxRetries hsame
  have hbudget : budget u = budget t := by
    rw [budget, budget, hmax]
  have ht : t.state ≠ .running ∧ t.state ≠ .completed ∧ t.state ≠ .dead ∧
      t.state ≠ .cancelled := by
    cases hst : t.state <;> simp_all [waits]
  have hu : u.state ≠ .running := by
    intro hrunning
    rw [hrunning] at hwaits'
    cases hwaits'
  refine ⟨?_, ?_, ?_⟩
  · rw [hid, hbudget, hattempts]
    exact h.bound
  · intro _ _ _
    rw [hid, hbudget, hattempts]
    exact h.waiting ht.1 ht.2.1 ht.2.2.1
  · intro _
    rw [hid, hattempts, h.exact (Or.inr ⟨ht.2.1, ht.2.2.1, ht.2.2.2⟩),
      Engine.requeue_of_ne_running ht.1, Engine.requeue_of_ne_running hu, hcount]

theorem Recorded.shifted
    {s s' : Trial} {t u t' : Task}
    (h : s.Recorded t t')
    (hwaits : waits t.state = true)
    (hwaits' : waits u.state = true)
    (hsame : submissionOf u = submissionOf t)
    (hattempts : s'.attempts t.id = s.attempts t.id)
    (hraised : s'.raised = s.raised) :
    s'.Recorded u t' := by
  have hid : u.id = t.id := congrArg Engine.Submission.id hsame
  have ht : t.state ≠ .running ∧ t.state ≠ .completed ∧ t.state ≠ .dead ∧
      t.state ≠ .cancelled := by
    cases hst : t.state <;> simp_all [waits]
  refine ⟨h.submission.trans hsame.symm, ?_, ?_, ?_⟩
  · right
    rw [hid, hraised]
    refine ⟨hwaits', ?_⟩
    rcases h.states with hst | hst
    · rw [hst]
      exact Or.inl hwaits
    · exact hst.2
  · rw [hid, hraised]
    exact h.logged
  · intro _ _
    rw [hid, hattempts]
    exact h.exact (Or.inr ⟨ht.2.1, ht.2.2.1, ht.2.2.2⟩) fun _ => ⟨ht.1, ht.2.2.2⟩

/-- A task that neither runs nor is noted as interrupted does not run in the directory. -/
theorem Recorded.ne_running
    {s : Trial} {t t' : Task}
    (h : s.Recorded t t')
    (hstate : t.state ≠ .running)
    (hraised : t.id ∉ s.raised) :
    t'.state ≠ .running := by
  intro hrunning
  rcases h.states with hst | ⟨-, hw | hr⟩
  · exact hstate (hst.symm.trans hrunning)
  · rw [hrunning] at hw
    cases hw
  · exact hraised hr.2

theorem not_open_of_settled
    {s : Trial}
    (hplaced : Placed s.sys)
    {t : Task}
    (hget : s.sys.engine.stateOf t.id = some t.state)
    (hend : t.state = .completed ∨ t.state = .dead) :
    ¬ s.Open t := by
  rintro (hheld | ⟨hc, hd, -⟩)
  · rw [hplaced.held_eq_zero hget hend] at hheld
    exact absurd hheld (lt_irrefl 0)
  · exact hend.elim hc hd

/-- A step that changes the tasks one by one, in the engine and in the directory. -/
theorem Counted.changed
    {s s' : Trial}
    (h : Counted s)
    (hsound : Sound s'.sys)
    (hplaced : Placed s'.sys)
    (f g : TaskID → Task → Task)
    (htasks : ∀ j, s'.sys.engine.tasks.get j = (s.sys.engine.tasks.get j).map (f j))
    (hdisk : Durably s'.sys.disk (fun e' => ∃ e, Related s.Recorded s.sys.engine e ∧
      ∀ j, e'.tasks.get j = (e.tasks.get j).map (g j)))
    (hlive : ∀ j t, s.sys.engine.tasks.get j = some t → s.Within t → s'.Within (f j t))
    (hrecorded : ∀ j t t', s.sys.engine.tasks.get j = some t → s.Within t →
      s.Recorded t t' → s'.Recorded (f j t) (g j t'))
    (hstarted : ∀ j ∈ s'.starts, j ∈ s'.sys.issued)
    (hnoted : ∀ j ∈ s'.raised, j ∈ s'.sys.issued) :
    Counted s' := by
  refine ⟨hsound, hplaced, ?_, ?_, hstarted, hnoted⟩
  · intro id t ht
    rw [htasks id] at ht
    obtain ⟨t₀, ht₀, rfl⟩ := Option.map_eq_some_iff.mp ht
    exact hlive id t₀ ht₀ (h.live id t₀ ht₀)
  · intro cfg loaded last hload
    obtain ⟨e, hrel, hget⟩ := hdisk cfg loaded last hload
    intro j
    rw [htasks j, hget j]
    cases ht : s.sys.engine.tasks.get j with
    | none =>
        rw [hrel.get_none ht]
        exact Option.Rel.none
    | some t =>
        obtain ⟨t', ht', htt⟩ := hrel.get_some ht
        rw [ht']
        exact Option.Rel.some (hrecorded j t t' ht (h.live j t ht) htt)

/-- A step that moves tasks or drops them, or gives waiting tasks another such state. -/
theorem Counted.shifted
    {s s' : Trial}
    (h : Counted s)
    (hsound : Sound s'.sys)
    (hplaced : Placed s'.sys)
    (f : TaskID → Task → Task)
    (htasks : ∀ j, s'.sys.engine.tasks.get j = (s.sys.engine.tasks.get j).map (f j))
    (hf : ∀ j t, s.sys.engine.tasks.get j = some t → f j t = t ∨
      (waits t.state = true ∧ waits (f j t).state = true ∧
        submissionOf (f j t) = submissionOf t ∧ (f j t).retryCount = t.retryCount))
    (hdisk : s'.sys.disk = s.sys.disk)
    (hheld : ∀ j, s'.sys.held j ≤ s.sys.held j)
    (hissued : s.sys.issued ⊆ s'.sys.issued)
    (hstarts : s'.starts = s.starts)
    (hraised : s'.raised = s.raised) :
    Counted s' := by
  have hattempts : ∀ j, s'.attempts j = s.attempts j := by
    intro j
    rw [attempts, hstarts, attempts]
  refine h.changed hsound hplaced f (fun _ t => t) htasks ?_ ?_ ?_ ?_ ?_
  · rw [hdisk]
    intro cfg loaded last hload
    refine ⟨loaded, h.disk cfg loaded last hload, fun j => ?_⟩
    rw [Option.map_id_fun']
    rfl
  · intro j t ht hwithin
    rcases hf j t ht with hsame | ⟨hw, hw', hsub, hcount⟩
    · rw [hsame]
      exact hwithin.mono (hattempts _) fun hpos => hpos.trans_le (hheld _)
    · exact hwithin.shifted hw hw' hsub hcount (hattempts _)
  · intro j t t' ht _ hrec
    rcases hf j t ht with hsame | ⟨hw, hw', hsub, -⟩
    · rw [hsame]
      refine hrec.mono (hattempts _) (fun hpos => hpos.trans_le (hheld _)) ?_
      rw [hraised]
    · exact hrec.shifted hw hw' hsub (hattempts _) hraised
  · rw [hstarts]
    exact fun j hj => hissued (h.started j hj)
  · rw [hraised]
    exact fun j hj => hissued (h.noted j hj)

theorem Counted.moved
    {s s' : Trial}
    (h : Counted s)
    (hsound : Sound s'.sys)
    (hplaced : Placed s'.sys)
    (htasks : s'.sys.engine.tasks = s.sys.engine.tasks)
    (hdisk : s'.sys.disk = s.sys.disk)
    (hheld : ∀ j, s'.sys.held j ≤ s.sys.held j)
    (hissued : s.sys.issued ⊆ s'.sys.issued)
    (hstarts : s'.starts = s.starts)
    (hraised : s'.raised = s.raised) :
    Counted s' := by
  refine h.shifted hsound hplaced (fun _ t => t) ?_ (fun _ _ _ => Or.inl rfl) hdisk hheld
    hissued hstarts hraised
  intro j
  rw [htasks, Option.map_id_fun']
  rfl

/-- The update of one task, and the identity for all others. -/
def only (id : TaskID) (f : Task → Task) (j : TaskID) : Task → Task :=
  if j = id then f else fun t => t

theorem get_updateTask_only
    (e : Engine) (id : TaskID) (f : Task → Task) (j : TaskID) :
    (e.updateTask id f).tasks.get j = (e.tasks.get j).map (only id f j) := by
  rw [Engine.get_updateTask, only]
  split_ifs with hj
  · rw [hj]
  · rw [Option.map_id_fun']
    rfl

/-- A step that touches one task, in the engine and in the directory. -/
theorem Counted.single
    {s s' : Trial} {id : TaskID} {f g : Task → Task}
    (h : Counted s)
    (hsound : Sound s'.sys)
    (hplaced : Placed s'.sys)
    (htasks : s'.sys.engine.tasks = (s.sys.engine.updateTask id f).tasks)
    (hdisk : Durably s'.sys.disk (fun e' => ∃ e, Related s.Recorded s.sys.engine e ∧
      e'.tasks = (e.updateTask id g).tasks))
    (hattempts : ∀ j, j ≠ id → s'.attempts j = s.attempts j)
    (hheld : ∀ j, s'.sys.held j ≤ s.sys.held j)
    (hraised : ∀ j, j ≠ id → (j ∈ s'.raised ↔ j ∈ s.raised))
    (hlive : ∀ t, s.sys.engine.tasks.get id = some t → t.id = id → s.Within t →
      s'.Within (f t))
    (hrecorded : ∀ t t', s.sys.engine.tasks.get id = some t → t.id = id → s.Within t →
      s.Recorded t t' → s'.Recorded (f t) (g t'))
    (hstarted : ∀ j ∈ s'.starts, j ∈ s'.sys.issued)
    (hnoted : ∀ j ∈ s'.raised, j ∈ s'.sys.issued) :
    Counted s' := by
  refine h.changed hsound hplaced (only id f) (only id g) ?_ ?_ ?_ ?_ hstarted hnoted
  · intro j
    rw [htasks]
    exact get_updateTask_only s.sys.engine id f j
  · intro cfg loaded last hload
    obtain ⟨e, hrel, heq⟩ := hdisk cfg loaded last hload
    refine ⟨e, hrel, fun j => ?_⟩
    rw [heq]
    exact get_updateTask_only e id g j
  · intro j t ht hwithin
    have hname : t.id = j := (h.sound.named j t ht).1
    unfold only
    split_ifs with hj
    · subst hj
      exact hlive t ht hname hwithin
    · exact hwithin.mono (hattempts _ (hname ▸ hj)) fun hpos => hpos.trans_le (hheld _)
  · intro j t t' ht hwithin hrec
    have hname : t.id = j := (h.sound.named j t ht).1
    unfold only
    split_ifs with hj
    · subst hj
      exact hrecorded t t' ht hname hwithin hrec
    · exact hrec.mono (hattempts _ (hname ▸ hj)) (fun hpos => hpos.trans_le (hheld _))
        (hraised _ (hname ▸ hj))

/-- The directory after a record about one task. -/
theorem Counted.record
    {s : Trial}
    (h : Counted s)
    (hcounts : s.Counts)
    {type : Wal.EntryType} {x : TaskState}
    (hx : Engine.writtenState type = some x)
    (id : TaskID) (data : Engine.EntryData) (now : Time) (len : Nat) :
    let r := s.sys.engine.walLog.record type id data (LogEnv.noError now len)
    Durably (s.sys.disk.extend r) (fun e' => ∃ e, Related s.Recorded s.sys.engine e ∧
      e'.tasks = (e.updateTask id (Engine.entryUpdate r.entry)).tasks) := by
  have htype : type ≠ .enqueue := by
    intro henq
    rw [henq] at hx
    cases hx
  refine h.disk.extend _ ?_ ?_
  · intro hskip
    exact absurd hskip (Engine.record_not_skipped hcounts _ _ _ _)
  · intro e e' hrel happly
    exact ⟨e, hrel, (Engine.applyEntry_update happly htype).2⟩

theorem cancel_counted
    {s : Trial} {id : TaskID} {now : Time} {len : Nat}
    (h : Counted s)
    (hok : s.Spared (.cancel id now len)) :
    Counted { s with sys := s.sys.cancel id now len } := by
  rcases System.cancel_cases s.sys id now len with hs | ⟨t, hget, hc, -⟩
  · rw [hs]
    exact h
  obtain ⟨hcounts, hlen⟩ := hok t hget hc
  have hsound := System.cancel_sound h.sound id now len
  have hplaced := System.cancel_placed h.sound h.placed hlen id now
  have hheld := System.cancel_held s.sys id now len
  rcases System.cancel_logged h.sound hlen id now with hs | ⟨t, hget, hc, hs⟩
  · rw [hs]
    exact h
  · rw [hs] at hsound hplaced hheld ⊢
    have hst : t.state ≠ .running ∧ t.state ≠ .completed ∧ t.state ≠ .dead ∧
        t.state ≠ .cancelled := by
      cases hst : t.state <;> simp_all [Engine.cancellable]
    have hopen : s.Open t := Or.inr ⟨hst.2.1, hst.2.2.1, hst.2.2.2⟩
    refine h.single hsound hplaced (f := Engine.cancelledAt now) rfl
      (h.record hcounts rfl id .nil now len) (fun _ _ => rfl) hheld (fun _ _ => Iff.rfl)
      ?_ ?_ h.started h.noted
    · intro t₁ ht₁ _ hwithin
      rw [hget] at ht₁
      cases ht₁
      refine ⟨hwithin.bound, fun _ _ _ => hwithin.waiting hst.1 hst.2.1 hst.2.2.1, ?_⟩
      intro _
      have hexact := hwithin.exact hopen
      rw [Engine.requeue_of_ne_running hst.1] at hexact
      rw [Engine.requeue_of_ne_running (by simp [Engine.cancelledAt])]
      exact hexact
    · intro t₁ t' ht₁ _ _ hrec
      rw [hget] at ht₁
      cases ht₁
      refine ⟨(Engine.submissionOf_entryUpdate _ _).trans hrec.submission, Or.inl rfl,
        fun _ => rfl, ?_⟩
      intro _ hfree
      have hraised : t.id ∉ s.raised := fun hmem => (hfree hmem).2 rfl
      have hexact := hrec.exact hopen fun hmem => absurd hmem hraised
      rw [Engine.requeue_of_ne_running (hrec.ne_running hst.1 hraised)] at hexact
      rw [Engine.requeue_of_ne_running (by simp [Engine.entryUpdate, Log.record])]
      exact hexact

theorem start_counted
    {s : Trial} {sys : System} {now : Time} {len : Nat}
    (h : Counted s)
    (hok : s.Spared (.start now len))
    (hstep : s.sys.start now len = some sys) :
    Counted { sys := sys, starts := s.startsAfter (.start now len), raised := s.raised } := by
  obtain ⟨hcounts, hlen⟩ := hok
  have hsound := System.start_sound h.sound hstep
  have hplaced := System.start_placed h.sound h.placed hstep
  have hheld := System.start_held hstep
  obtain ⟨id, rb, hdeq, hs⟩ := System.start_logged h.sound hlen hstep
  have hstarts : s.startsAfter (.start now len) = id :: s.starts := by
    simp only [startsAfter, hdeq]
  rw [hstarts]
  have hfront : id ∈ s.sys.places .buffer := by
    show id ∈ s.sys.engine.buffer.contents
    rw [(RingBuffer.dequeue_done hdeq).1]
    exact List.mem_cons_self
  obtain ⟨t, hget⟩ := h.sound.registered_of_mem hfront
  have hst : t.state = .pending ∨ t.state = .cancelled := by
    obtain ⟨x, hx, hstate⟩ := h.placed.states .buffer id hfront
    rw [Engine.stateOf, hget, Option.map_some, Option.some.injEq] at hstate
    rw [hstate]
    simpa [System.Place.states] using hx
  have hne : t.state ≠ .running := by
    rcases hst with hst | hst <;> simp [hst]
  have hid : t.id = id := (h.sound.named id t hget).1
  have hopen : s.Open t := by
    left
    rw [hid]
    exact (List.count_pos_iff.mpr hfront).trans_le (s.sys.count_le_held .buffer id)
  have hattempts : attempts { sys := sys, starts := id :: s.starts, raised := s.raised } id =
      s.attempts id + 1 := by
    simp [attempts]
  subst hs
  refine h.single hsound hplaced (f := Engine.runningFrom now) rfl
    (h.record hcounts rfl id .nil now len) ?_ hheld (fun _ _ => Iff.rfl) ?_ ?_ ?_ h.noted
  · intro j hj
    rw [attempts, attempts, List.count_cons_of_ne (Ne.symm hj)]
  · intro t₁ ht₁ _ hwithin
    rw [hget] at ht₁
    cases ht₁
    have hwaiting := hwithin.waiting hne (by rcases hst with hst | hst <;> simp [hst])
      (by rcases hst with hst | hst <;> simp [hst])
    have hexact := hwithin.exact hopen
    rw [Engine.requeue_of_ne_running hne] at hexact
    refine ⟨?_, fun hrunning => absurd rfl hrunning, fun _ => ?_⟩
    · show attempts _ t.id ≤ budget t + 1
      rw [hid] at hwaiting ⊢
      rw [hattempts]
      omega
    · show attempts _ t.id = _
      rw [Engine.requeue_retryCount_of_running (by rfl), hid, hattempts, ← hid, hexact]
      rfl
  · intro t₁ t' ht₁ _ _ hrec
    rw [hget] at ht₁
    cases ht₁
    refine ⟨(Engine.submissionOf_entryUpdate _ _).trans hrec.submission, Or.inl rfl,
      fun _ => rfl, ?_⟩
    intro _ hfree
    have hraised : t.id ∉ s.raised := fun hmem => (hfree hmem).1 rfl
    have hexact := hrec.exact hopen fun hmem => absurd hmem hraised
    rw [Engine.requeue_of_ne_running (hrec.ne_running hne hraised)] at hexact
    show attempts _ t.id = _
    rw [Engine.requeue_retryCount_of_running (by rfl), hid, hattempts, ← hid, hexact]
    rfl
  · intro j hj
    rcases List.mem_cons.mp hj with rfl | hold
    · exact (h.sound.named j t hget).2
    · exact h.started j hold

theorem unblock_counted
    {s : Trial} {sys : System} {id : TaskID}
    (h : Counted s)
    (hstep : s.sys.unblock id = some sys) :
    Counted { s with sys := sys } := by
  have hsound := System.unblock_sound h.sound hstep
  have hplaced := System.unblock_placed h.sound h.placed hstep
  have hheld := System.unblock_held hstep
  obtain ⟨-, ⟨rb, -, hs⟩ | hs⟩ := System.unblock_cases hstep
  all_goals
    subst hs
    exact h.moved hsound hplaced rfl rfl hheld (fun _ hj => hj) rfl rfl

/-- `PromoteReady` makes scheduled tasks pending. -/
theorem promote_counted
    {s : Trial} {sys : System} {now : Time}
    (h : Counted s)
    (hstep : s.sys.promote now = some sys) :
    Counted { s with sys := sys } := by
  have hsound := System.promote_sound h.sound hstep
  have hplaced := System.promote_placed h.sound h.placed hstep
  have hheld := System.promote_held hstep
  obtain ⟨-, hs⟩ := System.promote_cases hstep
  subst hs
  refine h.shifted hsound hplaced
    (fun j t => if j ∈ (s.sys.engine.promoteReady now).1 then t.forceSetState .pending else t)
    ?_ ?_ rfl hheld (fun _ hj => hj) rfl rfl
  · intro j
    show (s.sys.engine.promoteReady now).2.tasks.get j = _
    rw [Engine.get_promoteReady]
    split_ifs
    · rfl
    · rw [Option.map_id_fun']
      rfl
  · intro j t ht
    split_ifs with hj
    · right
      have hheap : j ∈ s.sys.engine.heap.inner :=
        (Engine.promoteReady_promoted s.sys.engine now).perm.mem_iff.mp
          (List.mem_append_left _ hj)
      have hstate := h.placed.state_of_heap hheap
      rw [Engine.stateOf, ht, Option.map_some, Option.some.injEq] at hstate
      exact ⟨by rw [hstate]; rfl, rfl, rfl, rfl⟩
    · exact Or.inl rfl

/-- The scheduler makes a pending task expired or scheduled. -/
theorem schedule_counted
    {s : Trial} {sys : System} {now later : Time}
    (h : Counted s)
    (hstep : s.sys.schedule now later = some sys) :
    Counted { s with sys := sys } := by
  have hsound := System.schedule_sound h.sound hstep
  have hplaced := System.schedule_placed h.sound h.placed hstep
  have hheld := System.schedule_held h.sound hstep
  obtain ⟨id, rest, t, hready, hget, hcases⟩ := System.schedule_cases h.sound hstep
  have hpending : t.state ≠ .cancelled → waits t.state = true := by
    intro hc
    have hstate := h.placed.state_of_ready (by rw [hready]; exact List.mem_cons_self)
    rw [Engine.stateOf, hget, Option.map_some, Option.some.injEq, Option.some.injEq] at hstate
    rw [hstate.resolve_right hc]
    rfl
  have honly : ∀ f : Task → Task, t.state ≠ .cancelled →
      (∀ t, waits (f t).state = true ∧ submissionOf (f t) = submissionOf t ∧
        (f t).retryCount = t.retryCount) →
      ∀ j t₁, s.sys.engine.tasks.get j = some t₁ → only id f j t₁ = t₁ ∨
        (waits t₁.state = true ∧ waits (only id f j t₁).state = true ∧
          submissionOf (only id f j t₁) = submissionOf t₁ ∧
          (only id f j t₁).retryCount = t₁.retryCount) := by
    intro f hc hf j t₁ ht₁
    unfold only
    split_ifs with hj
    · right
      rw [hj, hget] at ht₁
      cases ht₁
      exact ⟨hpending hc, hf t⟩
    · exact Or.inl rfl
  rcases hcases with ⟨-, hs⟩ | ⟨hc, -, hs⟩ | ⟨-, rb, -, hs⟩ | ⟨hc, hs⟩
  · subst hs
    exact h.moved hsound hplaced rfl rfl hheld (fun _ hj => hj) rfl rfl
  · subst hs
    exact h.shifted hsound hplaced (only id (Task.forceSetState · .expired))
      (get_updateTask_only s.sys.engine id _)
      (honly _ hc fun _ => ⟨rfl, rfl, rfl⟩) rfl hheld (fun _ hj => hj) rfl rfl
  · subst hs
    exact h.moved hsound hplaced rfl rfl hheld (fun _ hj => hj) rfl rfl
  · subst hs
    exact h.shifted hsound hplaced (only id (Engine.postponedTo (later + 100000000)))
      (get_updateTask_only s.sys.engine id _)
      (honly _ hc fun _ => ⟨rfl, rfl, rfl⟩) rfl hheld (fun _ hj => hj) rfl rfl

/-- An execution that was the last one of its task. -/
theorem Counted.settled
    {s : Trial} {sys : System} {id : TaskID} {f g : Task → Task} {x : TaskState}
    (h : Counted s)
    (hx : x = .completed ∨ x = .dead)
    (hf : ∀ t, (f t).state = x ∧ submissionOf (f t) = submissionOf t)
    (hg : ∀ t, (g t).state = x ∧ submissionOf (g t) = submissionOf t)
    (hsound : Sound sys)
    (hplaced : Placed sys)
    (htasks : sys.engine.tasks = (s.sys.engine.updateTask id f).tasks)
    (hdisk : Durably sys.disk (fun e' => ∃ e, Related s.Recorded s.sys.engine e ∧
      e'.tasks = (e.updateTask id g).tasks))
    (hheld : ∀ j, sys.held j ≤ s.sys.held j)
    (hissued : sys.issued = s.sys.issued) :
    Counted { s with sys := sys, raised := s.raised.filter fun j => decide (j ≠ id) } := by
  have hclosed : ∀ t, s.sys.engine.tasks.get id = some t →
      ¬ Open { s with sys := sys, raised := s.raised.filter fun j => decide (j ≠ id) }
        (f t) := by
    intro t ht
    have hname : (f t).id = id :=
      (congrArg Engine.Submission.id (hf t).2).trans (h.sound.named id t ht).1
    refine not_open_of_settled hplaced ?_ (by rw [(hf t).1]; exact hx)
    show (sys.engine.tasks.get (f t).id).map Task.state = some (f t).state
    rw [hname, htasks, Engine.get_updateTask, if_pos rfl, ht]
    rfl
  refine h.single hsound hplaced htasks hdisk (fun _ _ => rfl) hheld ?_ ?_ ?_ ?_ ?_
  · intro j hj
    simp [hj]
  · intro t ht _ hwithin
    have hid : (f t).id = t.id := congrArg Engine.Submission.id (hf t).2
    have hmax : (f t).maxRetries = t.maxRetries :=
      congrArg Engine.Submission.maxRetries (hf t).2
    refine ⟨?_, ?_, fun hopen => absurd hopen (hclosed t ht)⟩
    · rw [budget, hid, hmax]
      exact hwithin.bound
    · intro _ hcompleted hdead
      rw [(hf t).1] at hcompleted hdead
      exact absurd hx (not_or.mpr ⟨hcompleted, hdead⟩)
  · intro t t' ht hname _ hrec
    have hid : (f t).id = id := (congrArg Engine.Submission.id (hf t).2).trans hname
    refine ⟨?_, Or.inl ((hg t').1.trans (hf t).1.symm), ?_,
      fun hopen => absurd hopen (hclosed t ht)⟩
    · rw [(hg t').2, (hf t).2]
      exact hrec.submission
    · rw [hid]
      intro hmem
      simp at hmem
  · intro j hj
    rw [hissued]
    exact h.started j hj
  · intro j hj
    rw [hissued]
    exact h.noted j (List.mem_of_mem_filter hj)

/-- The end of an execution: the task is at its end, or its count is logged. -/
theorem finish_counted
    {s : Trial} {sys : System} {id : TaskID} {result : Option HandlerError} {now : Time}
    {delay : Duration} {len : Nat}
    (h : Counted s)
    (hok : s.Spared (.finish id result now delay len))
    (hstep : s.sys.finish id result now delay len = some sys) :
    Counted { s with sys := sys, raised := s.raised.filter fun j => decide (j ≠ id) } := by
  obtain ⟨hcounts, hlen, hexact⟩ := hok
  have hsound := System.finish_sound h.sound hstep
  have hplaced := System.finish_placed h.sound h.placed hstep
  have hheld := System.finish_held h.sound hstep
  obtain ⟨hid, t, hget, hcases⟩ := System.finish_logged h.sound hlen hstep
  have hname : t.id = id := (h.sound.named id t hget).1
  have hrunning : t.state = .running := (h.placed.running_iff hget).mpr hid
  rcases hcases with ⟨-, hs⟩ | ⟨err, -, -, hs⟩ | ⟨err, -, hfinal, hs⟩
  · subst hs
    exact h.settled (f := Engine.completedAt now) (Or.inl rfl) (fun _ => ⟨rfl, rfl⟩)
      (fun t => ⟨rfl, Engine.submissionOf_entryUpdate _ t⟩) hsound hplaced rfl
      (h.record hcounts rfl id .nil now len) hheld rfl
  · subst hs
    exact h.settled (f := Engine.deadAt err now) (Or.inr rfl) (fun _ => ⟨rfl, rfl⟩)
      (fun t => ⟨rfl, Engine.submissionOf_entryUpdate _ t⟩) hsound hplaced rfl
      (h.record hcounts rfl id (.ofText err.text) now len) hheld rfl
  · have hround := Lib.roundFloat64_of_natAbs_le (hexact t hget)
    subst hs
    -- The execution that ends here is counted, and it was not the last one.
    have hopen : s.Open t := Or.inr (by simp [hrunning])
    have hcount : s.Within t → s.attempts t.id = t.retryCount + 1 := fun hwithin => by
      rw [hwithin.exact hopen, Engine.requeue_retryCount_of_running hrunning]
    have hbudget : t.retryCount + 1 ≤ budget t := by
      have hle : t.retryCount + 1 ≤ t.maxRetries := by
        simp only [Engine.finalFailure, Bool.or_eq_false_iff, decide_eq_false_iff_not] at hfinal
        omega
      exact hle.trans (le_max_left _ _)
    refine h.single hsound hplaced (f := Engine.retriedAt err (now + delay)) rfl
      (h.record hcounts rfl id _ now len) (fun _ _ => rfl) hheld ?_ ?_ ?_ h.started ?_
    · intro j hj
      simp [hj]
    · intro t₁ ht₁ _ hwithin
      rw [hget] at ht₁
      cases ht₁
      refine ⟨hwithin.bound, fun _ _ _ => ?_, fun _ => ?_⟩
      · exact (hcount hwithin).trans_le hbudget
      · rw [Engine.requeue_of_ne_running (by simp [Engine.retriedAt])]
        exact hcount hwithin
    · intro t₁ t' ht₁ _ hwithin hrec
      rw [hget] at ht₁
      cases ht₁
      refine ⟨(Engine.submissionOf_entryUpdate _ _).trans hrec.submission, Or.inl rfl, ?_,
        fun _ _ => ?_⟩
      · show t.id ∈ s.raised.filter _ → _
        rw [hname]
        intro hmem
        simp at hmem
      · rw [Engine.requeue_of_ne_running
          (by rw [Engine.entryUpdate_state (x := .scheduled) rfl]; simp)]
        show s.attempts t.id = Lib.roundFloat64 (t.retryCount + 1)
        rw [hround]
        exact hcount hwithin
    · intro j hj
      exact h.noted j (List.mem_of_mem_filter hj)

/-- A new task is registered and logged, and has had no attempts. -/
theorem Counted.enrolled
    {s : Trial} {sys : System} {t : Task} {now : Time} {len : Nat}
    (h : Counted s)
    (hcounts : s.Counts)
    (hsound : Sound sys)
    (hplaced : Placed sys)
    (hnew : t.id ∉ s.sys.issued)
    (hcount : (requeue t).retryCount = 0)
    (hkeep : ∀ j, j ≠ t.id → 0 < sys.held j → 0 < s.sys.held j)
    (htasks : sys.engine.tasks = (s.sys.engine.register t).tasks)
    (hdisk : sys.disk = s.sys.disk.extend (s.sys.enqueueRecord t now len))
    (hissued : sys.issued = t.id :: s.sys.issued) :
    Counted { s with sys := sys } := by
  have hzero : s.attempts t.id = 0 := by
    rw [attempts, List.count_eq_zero.mpr fun hmem => hnew (h.started _ hmem)]
    rfl
  have hkept : ∀ j t₁, j ≠ t.id → s.sys.engine.tasks.get j = some t₁ →
      0 < sys.held t₁.id → 0 < s.sys.held t₁.id := by
    intro j t₁ hj hget
    have hname : t₁.id = j := (h.sound.named j t₁ hget).1
    exact hkeep _ (hname ▸ hj)
  refine ⟨hsound, hplaced, ?_, ?_, ?_, ?_⟩
  · intro j t₁ ht₁
    have hget : (s.sys.engine.register t).tasks.get j = some t₁ := by
      rw [← htasks]
      exact ht₁
    rw [Engine.get_register] at hget
    split_ifs at hget with hj
    · cases hget
      have hattempts : attempts { s with sys := sys } t.id = 0 := hzero
      have hbudget : 0 ≤ budget t := le_max_right _ _
      refine ⟨?_, fun _ _ _ => ?_, fun _ => ?_⟩
      · rw [hattempts]
        omega
      · rw [hattempts]
        exact hbudget
      · rw [hattempts, hcount]
    · exact (h.live j t₁ hget).mono rfl (hkept j t₁ hj hget)
  · show Durably sys.disk (Related _ sys.engine)
    rw [hdisk]
    refine h.disk.extend _ ?_ ?_
    · intro hskip
      exact absurd hskip (Engine.record_not_skipped hcounts _ _ _ _)
    · intro e e' hrel happly
      cases happly
      intro j
      rw [htasks, Engine.get_register]
      show Option.Rel _ _ ((e.register t).tasks.get j)
      rw [Engine.get_register]
      split_ifs with hj
      · refine Option.Rel.some ⟨rfl, Or.inl rfl, fun hmem => absurd (h.noted _ hmem) hnew,
          fun _ _ => ?_⟩
        rw [hcount]
        exact hzero
      · cases hget : s.sys.engine.tasks.get j with
        | none =>
            rw [hrel.get_none hget]
            exact Option.Rel.none
        | some t₁ =>
            obtain ⟨t', ht', hrec⟩ := hrel.get_some hget
            rw [ht']
            exact Option.Rel.some (hrec.mono rfl (hkept j t₁ hj hget) Iff.rfl)
  · intro j hj
    show j ∈ sys.issued
    rw [hissued]
    exact List.mem_cons_of_mem _ (h.started j hj)
  · intro j hj
    show j ∈ sys.issued
    rw [hissued]
    exact List.mem_cons_of_mem _ (h.noted j hj)

theorem submit_counted
    {s : Trial} {sys : System} {task : Task} {generatedID : TaskID} {now : Time} {len : Nat}
    (h : Counted s)
    (hok : s.Spared (.submit task generatedID now len))
    (hstep : s.sys.submit task generatedID now len = some sys) :
    Counted { s with sys := sys } := by
  have hsound := System.submit_sound h.sound hstep
  have hplaced := System.submit_placed h.sound h.placed hstep
  have hheld := System.submit_held h.sound hstep
  obtain ⟨hnew, hcases⟩ := System.submit_cases h.sound hstep
  rcases hcases with hs | ⟨hlogs, hcases⟩
  · subst hs
    exact h.moved hsound hplaced rfl rfl (fun _ => le_rfl) (List.subset_cons_self _ _) rfl rfl
  · obtain ⟨hcounts, hfresh⟩ := hok hlogs
    set t := s.sys.submitted task generatedID now with ht
    have hshape : sys.engine.tasks = (s.sys.engine.register t).tasks ∧
        sys.disk = s.sys.disk.extend (s.sys.enqueueRecord t now len) ∧
        sys.issued = t.id :: s.sys.issued := by
      rcases hcases with ⟨-, hs⟩ | ⟨-, rb, -, hs⟩ | ⟨-, hs⟩ | ⟨-, hs⟩
      all_goals
        subst hs
        exact ⟨rfl, rfl, rfl⟩
    obtain ⟨htasks, hdisk, hissued⟩ := hshape
    have hcount : (requeue t).retryCount = 0 := by
      have hne : t.state ≠ .running := by
        rcases Engine.prepare_state s.sys.engine task generatedID now with hst | hst
        all_goals
          rw [ht, System.submitted, hst]
          simp
      rw [Engine.requeue_of_ne_running hne, ht, System.submitted, Engine.prepare_retryCount]
      exact hfresh
    refine h.enrolled hcounts hsound hplaced hnew hcount ?_ htasks hdisk hissued
    intro j hj hpos
    have hle := hheld j
    rw [if_neg hj] at hle
    exact hpos.trans_le hle

/-- A checkpoint writes the counts that are in memory. -/
theorem checkpoint_counted
    {s : Trial} {sys : System} {order : List TaskID}
    (h : Counted s)
    (hstep : s.sys.checkpoint order = some sys) :
    Counted { s with sys := sys, raised := [] } := by
  have hsound := System.checkpoint_sound h.sound hstep
  have hplaced := System.checkpoint_placed h.placed hstep
  obtain ⟨horder, hs⟩ := System.checkpoint_cases hstep
  subst hs
  refine ⟨hsound, hplaced, ?_, ?_, h.started, fun j hj => by cases hj⟩
  · intro j t ht
    exact (h.live j t ht).mono rfl fun hpos => hpos
  · intro cfg loaded last hload
    obtain ⟨loaded', hload', -, hget⟩ := Engine.loadTasks_checkpoint cfg
      (fun id t ht => (h.sound.named id t ht).1) horder s.sys.disk
    rw [hload'] at hload
    cases hload
    intro j
    show Option.Rel _ (s.sys.engine.tasks.get j) _
    rw [hget j]
    cases ht : s.sys.engine.tasks.get j with
    | none =>
        exact Option.Rel.none
    | some t =>
        refine Option.Rel.some
          ⟨rfl, Or.inl rfl, fun hmem => absurd hmem List.not_mem_nil, ?_⟩
        intro hopen _
        rw [Engine.requeue_throughSnapshot]
        exact (h.live j t ht).exact hopen

/-- A task at its end is at its end after `Recover` too. -/
theorem Recorded.ended
    {s : Trial} {t t' : Task}
    (h : s.Recorded t t')
    (hend : t.state = .completed ∨ t.state = .dead ∨ t.state = .cancelled) :
    (requeue t').state = t.state := by
  have hsame : t'.state = t.state := by
    rcases h.states with hst | ⟨hw, -⟩
    · exact hst
    · rcases hend with hend | hend | hend
      all_goals
        rw [hend] at hw
        cases hw
  rw [Engine.requeue_of_ne_running ?_, hsame]
  rw [hsame]
  rcases hend with hend | hend | hend <;> simp [hend]

/-- What `Recover` does to a task whose attempts have been counted. -/
theorem Recorded.restarted
    {s s' : Trial} {t t' : Task}
    (h : s.Recorded t t')
    (hwithin : s.Within t)
    (hraised : s'.raised = s.sys.hands ++ s.raised)
    (hstarts : s'.starts = s.starts)
    (hrunning : t.state = .running ↔ t.id ∈ s.sys.hands)
    (hspared : t.id ∈ s.sys.hands → t.id ∉ s.raised ∧ t.retryCount + 1 ≤ max t.maxRetries 0)
    (hqueued : 0 < s'.sys.held t.id →
      (requeue t').state = .pending ∨ (requeue t').state = .scheduled) :
    s'.Within (requeue t') ∧ s'.Recorded (requeue t') t' := by
  have hsub : submissionOf (requeue t') = submissionOf t :=
    (Engine.submissionOf_requeue t').trans h.submission
  have hid : (requeue t').id = t.id := congrArg Engine.Submission.id hsub
  have hmax : (requeue t').maxRetries = t.maxRetries :=
    congrArg Engine.Submission.maxRetries hsub
  have hattempts : s'.attempts (requeue t').id = s.attempts t.id := by
    rw [attempts, hstarts, hid, attempts]
  have hbudget : budget (requeue t') = budget t := by
    rw [budget, hmax, budget]
  -- A task that may be started again was so before the restart.
  have hcount : s'.Open (requeue t') → s.attempts t.id = (requeue t').retryCount := by
    intro hopen
    have hend : (requeue t').state ≠ .completed ∧ (requeue t').state ≠ .dead ∧
        (requeue t').state ≠ .cancelled := by
      rcases hopen with hheld | hend
      · rw [hid] at hheld
        rcases hqueued hheld with hst | hst <;> simp [hst]
      · exact hend
    have hlive : ¬ (t.state = .completed ∨ t.state = .dead ∨ t.state = .cancelled) := by
      intro hdone
      rw [h.ended hdone] at hend
      exact hdone.elim hend.1 fun hdone => hdone.elim hend.2.1 hend.2.2
    simp only [not_or] at hlive
    refine h.exact (Or.inr hlive) fun hmem => ⟨fun hrun => ?_, hlive.2.2⟩
    exact (hspared (hrunning.mp hrun)).1 hmem
  refine ⟨⟨?_, ?_, ?_⟩, ⟨(Engine.submissionOf_requeue t').symm, ?_, ?_, ?_⟩⟩
  · rw [hattempts, hbudget]
    exact hwithin.bound
  · intro _ hcompleted hdead
    rw [hattempts, hbudget]
    by_cases hrun : t.state = .running
    · rw [hwithin.exact (Or.inr (by simp [hrun])), Engine.requeue_retryCount_of_running hrun]
      exact (hspared (hrunning.mp hrun)).2
    · refine hwithin.waiting hrun ?_ ?_
      · intro hst
        exact hcompleted ((h.ended (Or.inl hst)).trans hst)
      · intro hst
        exact hdead ((h.ended (Or.inr (Or.inl hst))).trans hst)
  · intro hopen
    rw [hattempts, Engine.requeue_requeue]
    exact hcount hopen
  · by_cases hrun : t'.state = .running
    · right
      refine ⟨?_, Or.inr ⟨hrun, ?_⟩⟩
      · rw [requeue, if_pos hrun]
        rfl
      · rw [hid, hraised, List.mem_append]
        rcases h.states with hst | ⟨-, hw | hr⟩
        · exact Or.inl (hrunning.mp (hst.symm.trans hrun))
        · rw [hrun] at hw
          cases hw
        · exact Or.inr hr.2
    · left
      rw [Engine.requeue_of_ne_running hrun]
  · rw [hid, hraised, List.mem_append]
    rintro (hmem | hmem)
    · have hrun := hrunning.mpr hmem
      rcases h.states with hst | ⟨hw, -⟩
      · rw [hst, hrun]
        rfl
      · rw [hrun] at hw
        cases hw
    · exact h.logged hmem
  · intro hopen _
    rw [hattempts]
    exact hcount hopen

theorem boot_counted
    {s : Trial} {sys : System} {cfg : Engine.Config} {order : List TaskID}
    (h : Counted s)
    (hok : s.Spared (.kill cfg order))
    (hstep : s.sys.boot cfg order = some sys) :
    Counted { s with sys := sys, raised := s.sys.hands ++ s.raised } := by
  have hsound := System.boot_sound h.sound hstep
  have hplaced := System.boot_placed hstep
  obtain ⟨loaded, last, e, hload, horder, hreb, hs⟩ := System.boot_cases hstep
  have hall := Engine.rebuildQueues_restarted hload horder hreb
  have hrel := h.disk cfg loaded last hload
  have hcarry : ∀ j t t', s.sys.engine.tasks.get j = some t →
      loaded.tasks.get j = some t' → s.Recorded t t' →
      Within { s with sys := sys, raised := s.sys.hands ++ s.raised } (requeue t') ∧
        Recorded { s with sys := sys, raised := s.sys.hands ++ s.raised } (requeue t') t' := by
    intro j t t' ht ht' hrec
    have hname : t.id = j := (h.sound.named j t ht).1
    have hget : e.tasks.get j = some (requeue t') := by
      rw [hall.tasks j, ht']
      rfl
    refine hrec.restarted (h.live j t ht) rfl rfl ?_ ?_ ?_
    · rw [hname]
      exact h.placed.running_iff ht
    · rw [hname]
      intro hmem
      exact ⟨(hok j hmem).1, (hok j hmem).2 t ht⟩
    · rw [hname, hs]
      exact System.queued_after_boot hall hget
  have hdisk : sys.disk = s.sys.disk := by
    rw [hs]
  have hissued : sys.issued = s.sys.issued := by
    rw [hs]
  have hengine : sys.engine = e := by
    rw [hs]
  refine ⟨hsound, hplaced, ?_, ?_, ?_, ?_⟩
  · intro j u hu
    change sys.engine.tasks.get j = some u at hu
    rw [hengine, hall.tasks j] at hu
    obtain ⟨t', ht', rfl⟩ := Option.map_eq_some_iff.mp hu
    obtain ⟨t, ht, hrec⟩ := hrel.of_get_some ht'
    exact (hcarry j t t' ht ht' hrec).1
  · show Durably sys.disk (Related _ sys.engine)
    rw [hdisk, hengine]
    intro cfg' loaded' last' hload' j
    rw [Engine.loadTasks_tasks hload' hload, hall.tasks j]
    cases ht' : loaded.tasks.get j with
    | none =>
        exact Option.Rel.none
    | some t' =>
        obtain ⟨t, ht, hrec⟩ := hrel.of_get_some ht'
        exact Option.Rel.some (hcarry j t t' ht ht' hrec).2
  · intro j hj
    show j ∈ sys.issued
    rw [hissued]
    exact h.started j hj
  · intro j hj
    show j ∈ sys.issued
    rw [hissued]
    rcases List.mem_append.mp hj with hmem | hmem
    · obtain ⟨t, ht⟩ := h.sound.registered_of_mem (p := .hands) hmem
      exact (h.sound.named j t ht).2
    · exact h.noted j hmem

/-- Every step keeps the counts, if it meets the condition. -/
theorem step_counted
    {s s' : Trial} {e : Event}
    (h : Counted s)
    (hok : s.Spared e)
    (hstep : s.step e = some s') :
    Counted s' := by
  obtain ⟨sys, hsys, rfl⟩ := Option.map_eq_some_iff.mp hstep
  cases e with
  | submit task generatedID now len =>
      exact submit_counted h hok hsys
  | unblock id =>
      exact unblock_counted h hsys
  | cancel id now len =>
      cases hsys
      exact cancel_counted h hok
  | promote now =>
      exact promote_counted h hsys
  | schedule now later =>
      exact schedule_counted h hsys
  | start now len =>
      exact start_counted h hok hsys
  | finish id result now delay len =>
      exact finish_counted h hok hsys
  | checkpoint order =>
      exact checkpoint_counted h hsys
  | shutdown order cfg recoverOrder =>
      simp only [System.step] at hsys
      split_ifs at hsys with hhands
      obtain ⟨mid, hcheck, hboot⟩ := Option.bind_eq_some_iff.mp hsys
      have hmid := checkpoint_counted h hcheck
      have hempty : mid.hands = [] := by
        rw [(System.checkpoint_cases hcheck).2]
        exact hhands
      have hfinal := boot_counted hmid (by simp [Spared, hempty]) hboot
      rw [hempty] at hfinal
      exact hfinal
  | kill cfg recoverOrder =>
      exact boot_counted h hok hsys

theorem counted_initial
    (cfg : Engine.Config) :
    Counted (initial cfg) where
  sound := System.sound_initial cfg
  placed := System.placed_initial cfg
  live := fun _ _ ht => by cases ht
  disk := by
    intro cfg' loaded last hload j
    cases hload
    exact Option.Rel.none
  started := fun _ hj => by cases hj
  noted := fun _ hj => by cases hj

/--
In every run whose steps all meet the condition, with any number of kills and restarts, no
task is started more than `max(MaxRetries, 0) + 1` times, and one whose attempts are used
up is not queued again.
-/
theorem limit_kept
    (cfg : Engine.Config) (es : List Event) (s : Trial)
    (hrun : Lib.Run step Spared (initial cfg) es s) :
    WithinLimit s :=
  (hrun.invariant Counted (fun _ _ _ => step_counted) (counted_initial cfg)).withinLimit

/-- A task with two retries, interrupted in its first attempt, failing in its second. -/
def interruptedOnce : List Event :=
  [.submit { Task.zero with maxRetries := 2 } "a" 10 300, .start 20 100,
    .kill System.roomyConfig ["a"], .start 30 100,
    .finish "a" (some ⟨"boom", false⟩) 40 1000 100, .promote 2000, .schedule 2000 2000,
    .start 2010 100, .finish "a" none 2020 0 100]

theorem limit_kept_interruptedOnce :
    ∃ s, Lib.Run step Spared (initial System.roomyConfig) interruptedOnce s ∧
      s.attempts "a" = 3 ∧ WithinLimit s := by
  obtain ⟨s, hrun, hstarts⟩ := Lib.exists_run_of_exec step Spared
    (fun s => s.attempts "a" = 3) (initial System.roomyConfig) interruptedOnce
    (by decide +kernel)
  exact ⟨s, hrun, hstarts, limit_kept System.roomyConfig interruptedOnce s hrun⟩

/-- A task with one retry, interrupted in its first attempt and again in its second. -/
def interruptedTwice : List Event :=
  [.submit { Task.zero with maxRetries := 1 } "a" 10 300, .start 20 100,
    .kill System.roomyConfig ["a"], .start 30 100, .kill System.roomyConfig ["a"],
    .start 40 100]

theorem interrupted_startsAgain :
    ∃ s t, Lib.Run step (fun _ _ => True) (initial System.roomyConfig) interruptedTwice s ∧
      s.sys.engine.tasks.get "a" = some t ∧ t.maxRetries = 1 ∧ s.attempts "a" = 3 ∧
      ¬ WithinLimit s := by
  obtain ⟨s, hrun, hget, hstarts⟩ := Lib.exists_run_of_exec step (fun _ _ => True)
    (fun s => (s.sys.engine.tasks.get "a").map Task.maxRetries = some 1 ∧
      s.attempts "a" = 3)
    (initial System.roomyConfig) interruptedTwice (by decide +kernel)
  obtain ⟨t, ht, hmax⟩ := Option.map_eq_some_iff.mp hget
  refine ⟨s, t, hrun, ht, hmax, hstarts, ?_⟩
  intro hlimit
  have hle := (hlimit "a" t ht).1
  rw [hstarts, hmax] at hle
  omega

end Trial
end TaskQueue
