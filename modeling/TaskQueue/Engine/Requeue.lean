import Mathlib.Tactic
import TaskQueue.Engine.Effects
import TaskQueue.Engine.Reload
import TaskQueue.Engine.System

/-!
# Recovery fills the queues

`rebuildQueues` puts pending and running tasks in the ring buffer and scheduled
tasks on the heap.  Nothing bounds the number of the former by the capacity of
the buffer, and no worker runs yet: what does not fit is dropped under the reject
policy and blocks `Recover` under the block policy.  `recover_requeues_iff` shows
that this is the only way in which recovery fails to queue every task that still
has to run.
-/

namespace TaskQueue

open Lib (GoMap)
open Queue

namespace Engine

/-- A task in this state goes to the ring buffer. -/
def toBuffer : TaskState → Bool
  | .pending | .running => true
  | _ => false

/-- The task goes to the ring buffer. -/
def runnable (e : Engine) (id : TaskID) : Bool :=
  (e.stateOf id).any toBuffer

theorem stateOf_of_runnable
    {e : Engine} {id : TaskID}
    (h : e.runnable id = true) :
    ∃ x, e.stateOf id = some x ∧ toBuffer x = true :=
  (Option.any_eq_true toBuffer (e.stateOf id)).mp h

/-- The task goes to the heap. -/
def delayed (e : Engine) (id : TaskID) : Bool :=
  decide (e.stateOf id = some .scheduled)

/-- The tasks in the two queues. -/
def queued (e : Engine) : List TaskID :=
  e.buffer.contents ++ e.heap.inner

theorem reEnqueue_of_done
    {e : Engine} {id : TaskID} {rb : RingBuffer TaskID}
    (h : e.buffer.enqueue id = .done rb) :
    e.reEnqueue id = some { e with buffer := rb } := by
  rw [reEnqueue, h]

/-- What the re-enqueueing of one task can do. -/
theorem reEnqueue_some
    {e e' : Engine} {id : TaskID}
    (h : e.reEnqueue id = some e') :
    e'.tasks = e.tasks ∧ e'.heap = e.heap ∧ e'.dlq = e.dlq ∧
      e'.idempKeys = e.idempKeys ∧ e'.walLog = e.walLog ∧ e'.cfg = e.cfg ∧
      RingBuffer.SameSettings e.buffer e'.buffer ∧
      (e'.buffer.contents = e.buffer.contents ∨
        e'.buffer.contents = e.buffer.contents ++ [id]) := by
  unfold reEnqueue at h
  cases henq : e.buffer.enqueue id with
  | done rb =>
      rw [henq] at h
      cases h
      obtain ⟨hcontents, hsame⟩ := RingBuffer.enqueue_done henq
      exact ⟨rfl, rfl, rfl, rfl, rfl, rfl, hsame, Or.inr hcontents⟩
  | fail err =>
      rw [henq] at h
      cases h
      exact ⟨rfl, rfl, rfl, rfl, rfl, rfl, ⟨rfl, rfl, rfl⟩, Or.inl rfl⟩
  | wait =>
      rw [henq] at h
      cases h

/-- The task as `rebuildQueues` leaves it: an interrupted execution is a failed one. -/
def requeue (t : Task) : Task :=
  if t.state = .running then
    { t with state := .pending, retryCount := t.retryCount + 1 }
  else
    t

/-- What one turn of the loop of `rebuildQueues` can do. -/
structure Rebuilt (e : Engine) (id : TaskID) (e' : Engine) : Prop where
  tasks : ∀ j, e'.tasks.get j =
    if j = id then (e.tasks.get id).map requeue else e.tasks.get j
  heap : e'.heap.inner.Perm ((if e.delayed id then [id] else []) ++ e.heap.inner)
  indexed : id ∉ e.heap.inner → e.heap.Indexed → e'.heap.Indexed
  buffer : e'.buffer.contents = e.buffer.contents ∨
    (e.runnable id = true ∧ e'.buffer.contents = e.buffer.contents ++ [id])
  settings : RingBuffer.SameSettings e.buffer e'.buffer
  dlq : e'.dlq = e.dlq
  walLog : e'.walLog = e.walLog
  cfg : e'.cfg = e.cfg

/-- A turn that puts the task into the buffer, once its record is rewritten. -/
theorem rebuilt_of_reEnqueue
    {e e₀ e' : Engine} {id : TaskID}
    (h : e₀.reEnqueue id = some e')
    (hsame : e₀ = { e with tasks := e₀.tasks })
    (htasks : ∀ j, e₀.tasks.get j =
      if j = id then (e.tasks.get id).map requeue else e.tasks.get j)
    (hrun : e.runnable id = true)
    (hdelayed : e.delayed id = false) :
    Rebuilt e id e' := by
  obtain ⟨htasks', hheap, hdlq, -, hlog, hcfg, hsettings, hbuf⟩ := reEnqueue_some h
  have hheap₀ : e₀.heap = e.heap := by rw [hsame]
  have hbuffer₀ : e₀.buffer = e.buffer := by rw [hsame]
  have hdlq₀ : e₀.dlq = e.dlq := by rw [hsame]
  have hlog₀ : e₀.walLog = e.walLog := by rw [hsame]
  have hcfg₀ : e₀.cfg = e.cfg := by rw [hsame]
  rw [hbuffer₀] at hsettings hbuf
  rw [hheap₀] at hheap
  refine ⟨?_, ?_, ?_, ?_, hsettings, hdlq.trans hdlq₀, hlog.trans hlog₀, hcfg.trans hcfg₀⟩
  · intro j
    rw [htasks', htasks j]
  · rw [hheap, hdelayed]
    exact List.Perm.refl _
  · rw [hheap]
    exact fun _ hi => hi
  · exact hbuf.imp_right fun hcontents => ⟨hrun, hcontents⟩

theorem rebuildTask_some
    {e e' : Engine} {id : TaskID}
    (h : e.rebuildTask id = some e') :
    Rebuilt e id e' := by
  unfold rebuildTask at h
  cases hget : e.tasks.get id with
  | none =>
      have hs : e.stateOf id = none := by simp [stateOf, hget]
      rw [hs] at h
      cases h
      refine ⟨?_, ?_, fun _ hi => hi, Or.inl rfl, ⟨rfl, rfl, rfl⟩, rfl, rfl, rfl⟩
      · intro j
        split_ifs with hj
        · rw [hj, hget]
          rfl
        · rfl
      · simp [delayed, hs]
  | some t =>
      have hs : e.stateOf id = some t.state := by simp [stateOf, hget]
      have hkept : t.state ≠ .running → ∀ j, e.tasks.get j =
          if j = id then (some t).map requeue else e.tasks.get j := by
        intro hne j
        split_ifs with hj
        · rw [hj, hget, Option.map_some, requeue, if_neg hne]
        · rfl
      rw [hs] at h
      cases hstate : t.state <;> simp only [hstate] at h hs hkept
      case pending =>
        refine rebuilt_of_reEnqueue h rfl ?_ (by simp [runnable, hs, toBuffer])
          (by simp [delayed, hs])
        rw [hget]
        exact hkept (by simp)
      case running =>
        refine rebuilt_of_reEnqueue h rfl ?_ (by simp [runnable, hs, toBuffer])
          (by simp [delayed, hs])
        intro j
        rw [get_updateTask]
        split_ifs with hj
        · rw [hget]
          simp [requeue, hstate, Task.forceSetState]
        · rfl
      case scheduled =>
        cases h
        have hpush := Lib.IndexedHeap.push_spec e.scheduledAt e.heap id
        refine ⟨?_, ?_, ?_, Or.inl rfl, ⟨rfl, rfl, rfl⟩, rfl, rfl, rfl⟩
        · rw [hget]
          exact hkept (by simp)
        · simp only [delayed, hs, decide_true, if_true, List.singleton_append]
          exact hpush.1
        · exact hpush.2.1
      all_goals
        cases h
        refine ⟨?_, ?_, fun _ hi => hi, Or.inl rfl, ⟨rfl, rfl, rfl⟩, rfl, rfl, rfl⟩
        · rw [hget]
          exact hkept (by simp)
        · simp [delayed, hs]

/-- A turn of the loop for which the buffer has room takes the task. -/
theorem rebuildTask_of_room
    {e : Engine} {id : TaskID}
    (hopen : e.buffer.closed = false)
    (hroom : e.runnable id = true → e.buffer.size < e.buffer.cap) :
    ∃ e', e.rebuildTask id = some e' ∧
      e'.buffer.contents = e.buffer.contents ++ (if e.runnable id then [id] else []) := by
  have henq : e.runnable id = true →
      ∃ rb, e.buffer.enqueue id = .done rb ∧
        rb.contents = e.buffer.contents ++ [id] := by
    intro hr
    obtain ⟨rb, hrb⟩ := RingBuffer.enqueue_of_lt (t := id) hopen (hroom hr)
    exact ⟨rb, hrb, (RingBuffer.enqueue_done hrb).1⟩
  unfold rebuildTask
  cases hs : e.stateOf id with
  | none =>
      exact ⟨e, rfl, by simp [runnable, hs]⟩
  | some state =>
      cases state
      case pending =>
        have hr : e.runnable id = true := by simp [runnable, hs, toBuffer]
        obtain ⟨rb, hrb, hcontents⟩ := henq hr
        exact ⟨_, reEnqueue_of_done hrb, by simp [hr, hcontents]⟩
      case running =>
        have hr : e.runnable id = true := by simp [runnable, hs, toBuffer]
        obtain ⟨rb, hrb, hcontents⟩ := henq hr
        exact ⟨_, reEnqueue_of_done hrb, by simp [hr, hcontents]⟩
      all_goals
        exact ⟨_, rfl, by simp [runnable, hs, toBuffer]⟩

/-- A turn of the loop for which the buffer has no room drops the task, or waits. -/
theorem rebuildTask_of_full
    {e : Engine} {id : TaskID}
    (hopen : e.buffer.closed = false)
    (hr : e.runnable id = true)
    (hfull : e.buffer.size = e.buffer.cap) :
    (e.buffer.policy = .reject ∧
      ∃ e', e.rebuildTask id = some e' ∧ e'.buffer.contents = e.buffer.contents) ∨
    (e.buffer.policy = .block ∧ e.rebuildTask id = none) := by
  have hone : ∀ e₀ : Engine, e₀.buffer = e.buffer →
      e₀.reEnqueue id = if e.buffer.policy = .reject then some e₀ else none := by
    intro e₀ hbuffer
    rw [reEnqueue, hbuffer, RingBuffer.enqueue_of_full hopen hfull]
    split_ifs <;> rfl
  have hturn : ∃ e₀ : Engine, e₀.buffer = e.buffer ∧ e.rebuildTask id = e₀.reEnqueue id := by
    obtain ⟨x, hs, hx⟩ := stateOf_of_runnable hr
    unfold rebuildTask
    rw [hs]
    cases x with
    | pending =>
        exact ⟨e, rfl, rfl⟩
    | running =>
        refine ⟨_, ?_, rfl⟩
        rfl
    | _ =>
        cases hx
  obtain ⟨e₀, hbuffer, hturn⟩ := hturn
  rw [hturn, hone e₀ hbuffer]
  cases hpolicy : e.buffer.policy with
  | reject =>
      exact Or.inl ⟨rfl, e₀, rfl, by rw [hbuffer]⟩
  | block =>
      exact Or.inr ⟨rfl, rfl⟩

/-- What a turn of the loop leaves as it was for the tasks that are still to come. -/
theorem Rebuilt.later
    {e e' : Engine} {id : TaskID}
    (h : Rebuilt e id e')
    {order : List TaskID}
    (hid : id ∉ order) :
    order.filter e'.runnable = order.filter e.runnable ∧
      order.filter e'.delayed = order.filter e.delayed := by
  have hstate : ∀ j ∈ order, e'.stateOf j = e.stateOf j := by
    intro j hj
    have hne : j ≠ id := by
      intro hji
      subst hji
      exact hid hj
    simp only [stateOf, h.tasks, if_neg hne]
  constructor
  · apply List.filter_congr
    intro j hj
    rw [runnable, runnable, hstate j hj]
  · apply List.filter_congr
    intro j hj
    rw [delayed, delayed, hstate j hj]

/-- The whole loop, when it does not wait. -/
structure RebuiltAll (e : Engine) (order : List TaskID) (e' : Engine) : Prop where
  tasks : ∀ j, e'.tasks.get j =
    if j ∈ order then (e.tasks.get j).map requeue else e.tasks.get j
  heap : e'.heap.inner.Perm (order.filter e.delayed ++ e.heap.inner)
  indexed : (∀ id ∈ order, id ∉ e.heap.inner) → e.heap.Indexed → e'.heap.Indexed
  buffer : ∃ taken, taken.Sublist (order.filter e.runnable) ∧
    e'.buffer.contents = e.buffer.contents ++ taken
  settings : RingBuffer.SameSettings e.buffer e'.buffer
  dlq : e'.dlq = e.dlq
  walLog : e'.walLog = e.walLog
  cfg : e'.cfg = e.cfg

theorem rebuildQueues_some
    {e e' : Engine} {order : List TaskID}
    (hnodup : order.Nodup)
    (h : e.rebuildQueues order = some e') :
    RebuiltAll e order e' := by
  induction order generalizing e with
  | nil =>
      cases h
      exact ⟨fun j => by simp, List.Perm.refl _, fun _ hi => hi,
        ⟨[], List.Sublist.refl _, by simp⟩, ⟨rfl, rfl, rfl⟩, rfl, rfl, rfl⟩
  | cons id order ih =>
      obtain ⟨hid, hnodup'⟩ := List.nodup_cons.mp hnodup
      rw [rebuildQueues] at h
      cases hstep : e.rebuildTask id with
      | none =>
          simp [hstep] at h
      | some e₁ =>
          rw [hstep] at h
          have hone := rebuildTask_some hstep
          have hrest := ih hnodup' h
          obtain ⟨hrun, hdel⟩ := hone.later hid
          refine ⟨?_, ?_, ?_, ?_, ?_, hrest.dlq.trans hone.dlq,
            hrest.walLog.trans hone.walLog, hrest.cfg.trans hone.cfg⟩
          · intro j
            rw [hrest.tasks j, hone.tasks j]
            by_cases hj : j = id
            · subst hj
              simp [hid]
            · simp [hj]
          · refine hrest.heap.trans ?_
            rw [hdel, List.filter_cons]
            refine (hone.heap.append_left _).trans ?_
            rw [← List.append_assoc]
            refine List.Perm.append_right _ ?_
            split_ifs
            · exact List.perm_append_comm
            · simp
          · intro hnot hi
            refine hrest.indexed ?_ (hone.indexed (hnot id List.mem_cons_self) hi)
            intro j hj hmem
            have hmem' := hone.heap.mem_iff.mp hmem
            rw [List.mem_append] at hmem'
            rcases hmem' with hself | hold
            · split_ifs at hself
              · rw [List.mem_singleton] at hself
                subst hself
                exact hid hj
              · cases hself
            · exact hnot j (List.mem_cons_of_mem _ hj) hold
          · obtain ⟨taken, hsub, hcontents⟩ := hrest.buffer
            rw [hrun] at hsub
            rcases hone.buffer with hsame | ⟨hr, hmore⟩
            · refine ⟨taken, hsub.trans ?_, by rw [hcontents, hsame]⟩
              exact (List.sublist_cons_self id order).filter _
            · refine ⟨id :: taken, ?_, by rw [hcontents, hmore]; simp⟩
              rw [List.filter_cons, if_pos hr]
              exact hsub.cons_cons id
          · exact ⟨hrest.settings.cap.trans hone.settings.cap,
              hrest.settings.closed.trans hone.settings.closed,
              hrest.settings.policy.trans hone.settings.policy⟩

/-- A buffer that blocks has no room for all runnable tasks. -/
def Overflows (e : Engine) (order : List TaskID) : Prop :=
  e.buffer.policy = .block ∧
    e.buffer.cap < e.buffer.size + (order.filter e.runnable).length

/--
The loop waits exactly when the buffer blocks and has no room for all runnable tasks;
otherwise the buffer takes as many of them as fit, in the order of the iteration.
-/
theorem rebuildQueues_outcome
    {e : Engine} {order : List TaskID}
    (hnodup : order.Nodup)
    (hopen : e.buffer.closed = false) :
    (e.Overflows order ∧ e.rebuildQueues order = none) ∨
    (¬ e.Overflows order ∧ ∃ e', e.rebuildQueues order = some e' ∧
      e'.buffer.contents =
        (e.buffer.contents ++ order.filter e.runnable).take e.buffer.cap) := by
  induction order generalizing e with
  | nil =>
      refine Or.inr ⟨?_, e, rfl, ?_⟩
      · rintro ⟨-, hlt⟩
        rw [List.filter_nil, List.length_nil] at hlt
        have := e.buffer.size_le
        omega
      · rw [List.filter_nil, List.append_nil, List.take_of_length_le]
        rw [e.buffer.contents_length]
        exact e.buffer.size_le
  | cons id order ih =>
      obtain ⟨hid, hnodup'⟩ := List.nodup_cons.mp hnodup
      -- the rest of the loop, after a turn that keeps what the outcome depends on
      have hgo : ∀ e₁, e.rebuildTask id = some e₁ →
          (e₁.Overflows order ↔ e.Overflows (id :: order)) →
          (e₁.buffer.contents ++ order.filter e₁.runnable).take e.buffer.cap =
            (e.buffer.contents ++ (id :: order).filter e.runnable).take e.buffer.cap →
          (e.Overflows (id :: order) ∧ e.rebuildQueues (id :: order) = none) ∨
          (¬ e.Overflows (id :: order) ∧ ∃ e', e.rebuildQueues (id :: order) = some e' ∧
            e'.buffer.contents =
              (e.buffer.contents ++ (id :: order).filter e.runnable).take e.buffer.cap) := by
        intro e₁ hstep hover htake
        have hsettings := (rebuildTask_some hstep).settings
        rw [rebuildQueues, hstep, ← hover, ← htake, ← hsettings.cap]
        exact ih hnodup' (hsettings.closed.trans hopen)
      by_cases hroom : e.runnable id = true → e.buffer.size < e.buffer.cap
      · obtain ⟨e₁, hstep, hcontents⟩ := rebuildTask_of_room hopen hroom
        have hreb := rebuildTask_some hstep
        have hcat : e₁.buffer.contents ++ order.filter e₁.runnable =
            e.buffer.contents ++ (id :: order).filter e.runnable := by
          rw [hcontents, (hreb.later hid).1, List.filter_cons, List.append_assoc]
          split_ifs <;> rfl
        have hlen : e₁.buffer.size + (order.filter e₁.runnable).length =
            e.buffer.size + ((id :: order).filter e.runnable).length := by
          rw [← e₁.buffer.contents_length, ← e.buffer.contents_length, ← List.length_append,
            hcat, List.length_append]
        refine hgo e₁ hstep ?_ (by rw [hcat])
        rw [Overflows, Overflows, hlen, hreb.settings.cap, hreb.settings.policy]
      · obtain ⟨hr, hge⟩ := Classical.not_imp.mp hroom
        have hfull : e.buffer.size = e.buffer.cap := by
          have := e.buffer.size_le
          omega
        have hlen : e.buffer.contents.length = e.buffer.cap := by
          rw [e.buffer.contents_length, hfull]
        rcases rebuildTask_of_full hopen hr hfull with
          ⟨hreject, e₁, hstep, hcontents⟩ | ⟨hblock, hstep⟩
        · refine hgo e₁ hstep ?_ ?_
          · rw [Overflows, Overflows, (rebuildTask_some hstep).settings.policy, hreject]
            simp
          · rw [hcontents, List.take_left' hlen, List.take_left' hlen]
        · refine Or.inl ⟨⟨hblock, ?_⟩, ?_⟩
          · rw [List.filter_cons, if_pos hr, List.length_cons]
            omega
          · rw [rebuildQueues, hstep]

/-- The outcome of the loop in a new process. -/
theorem rebuildQueues_loaded
    {cfg : Config} {d : Disk} {loaded : Engine} {last : Nat} {order : List TaskID}
    (hload : loadTasks cfg d = .ok (loaded, last))
    (hnodup : order.Nodup) :
    (cfg.overflowPolicy = .block ∧ cfg.capacity < (order.filter loaded.runnable).length ∧
      (loaded.openLog last).rebuildQueues order = none) ∨
    ((cfg.overflowPolicy = .reject ∨
        (order.filter loaded.runnable).length ≤ cfg.capacity) ∧
      ∃ e, (loaded.openLog last).rebuildQueues order = some e ∧
        e.buffer.contents = (order.filter loaded.runnable).take cfg.capacity) := by
  obtain ⟨hbuf, -, -⟩ := loadTasks_frame hload
  have hbuf' : (loaded.openLog last).buffer = (new cfg).buffer := hbuf
  have hover : (loaded.openLog last).Overflows order ↔ cfg.overflowPolicy = .block ∧
      cfg.capacity < (order.filter loaded.runnable).length := by
    rw [Overflows, hbuf']
    show _ ∧ cfg.capacity < 0 + (order.filter loaded.runnable).length ↔ _
    rw [Nat.zero_add]
    rfl
  rcases rebuildQueues_outcome (e := loaded.openLog last) hnodup (by rw [hbuf']; rfl) with
    ⟨ho, hnone⟩ | ⟨ho, e, hsome, hcontents⟩
  · obtain ⟨hblock, hlt⟩ := hover.mp ho
    exact Or.inl ⟨hblock, hlt, hnone⟩
  · refine Or.inr ⟨?_, e, hsome, ?_⟩
    · rw [hover] at ho
      cases hpolicy : cfg.overflowPolicy with
      | reject =>
          exact Or.inl rfl
      | block =>
          exact Or.inr (Nat.le_of_not_lt fun hlt => ho ⟨hpolicy, hlt⟩)
    · rw [hcontents, hbuf']
      rfl

/-- The buffer of a new engine takes all runnable tasks if its capacity allows. -/
theorem rebuildQueues_of_capacity
    {cfg : Config} {d : Disk} {loaded : Engine} {last : Nat} {order : List TaskID}
    (hload : loadTasks cfg d = .ok (loaded, last))
    (hnodup : order.Nodup)
    (hroom : (order.filter loaded.runnable).length ≤ cfg.capacity) :
    ∃ e, (loaded.openLog last).rebuildQueues order = some e ∧
      e.buffer.contents = order.filter loaded.runnable := by
  rcases rebuildQueues_loaded hload hnodup with ⟨-, hlt, -⟩ | ⟨-, e, hsome, hcontents⟩
  · omega
  · exact ⟨e, hsome, by rw [hcontents, List.take_of_length_le hroom]⟩

theorem delayed_eq_false_of_runnable
    (e : Engine) {id : TaskID}
    (h : e.runnable id = true) :
    e.delayed id = false := by
  unfold runnable at h
  unfold delayed
  cases hs : e.stateOf id with
  | none =>
      rfl
  | some state =>
      cases state <;> simp_all [toBuffer]

/-- A task that still has to run goes to one of the two queues. -/
theorem any_isLive
    (e : Engine) (id : TaskID) :
    (e.stateOf id).any TaskState.isLive = (e.runnable id || e.delayed id) := by
  unfold runnable delayed
  cases e.stateOf id with
  | none =>
      rfl
  | some state =>
      cases state <;> rfl

/--
`Recover` returns, and then every task that still had to run, pending, scheduled
or running at the crash, is in the queues exactly once and no other task is.
-/
def RecoversAll (cfg : Config) (d : Disk) (order : List TaskID) : Prop :=
  ∃ loaded last e,
    loadTasks cfg d = .ok (loaded, last) ∧
    recover cfg d order = .ok e ∧
    ∀ id, e.queued.count id = if (loaded.stateOf id).any TaskState.isLive then 1 else 0

/-- The log can be read, and the pending and the running tasks fit in the buffer. -/
def fitsBuffer (cfg : Config) (d : Disk) : Bool :=
  match loadTasks cfg d with
  | .ok (loaded, _) =>
      decide ((loaded.tasks.keys.filter fun id => loaded.runnable id = true).card ≤
        cfg.capacity)
  | .error _ => false

section Requeue

variable {cfg : Config} {d : Disk} {order : List TaskID}

theorem runnable_card
    {loaded : Engine}
    (horder : loaded.tasks.Enumerates order) :
    (loaded.tasks.keys.filter fun id => loaded.runnable id = true).card =
      (order.filter loaded.runnable).length :=
  horder.card_filter loaded.runnable

/-- What is in both queues after the loop, without regard to the order. -/
theorem queued_perm
    {loaded e : Engine} {last : Nat}
    (hload : loadTasks cfg d = .ok (loaded, last))
    (hnodup : order.Nodup)
    (h : (loaded.openLog last).rebuildQueues order = some e) :
    ∃ taken, taken.Sublist (order.filter loaded.runnable) ∧
      e.buffer.contents = taken ∧
      e.heap.inner.Perm (order.filter loaded.delayed) := by
  obtain ⟨hbuf, hheap, -⟩ := loadTasks_frame hload
  have hall := rebuildQueues_some hnodup h
  have hempty : (loaded.openLog last).buffer.contents = [] := by
    show loaded.buffer.contents = []
    rw [hbuf]
    rfl
  have hnone : (loaded.openLog last).heap.inner = [] := by
    show loaded.heap.inner = []
    rw [hheap]
    rfl
  obtain ⟨taken, hsub, hcontents⟩ := hall.buffer
  refine ⟨taken, hsub, by rw [hcontents, hempty, List.nil_append], ?_⟩
  have hperm := hall.heap
  rw [hnone, List.append_nil] at hperm
  exact hperm

/-- No task is queued more often than the loop visits it. -/
theorem queued_count_le
    {loaded e : Engine} {last : Nat}
    (hload : loadTasks cfg d = .ok (loaded, last))
    (hnodup : order.Nodup)
    (h : (loaded.openLog last).rebuildQueues order = some e)
    (id : TaskID) :
    e.queued.count id ≤ order.count id := by
  obtain ⟨taken, hsub, hcontents, hperm⟩ := queued_perm hload hnodup h
  have htaken := hsub.count_le id
  have hdisj : loaded.runnable id = true → loaded.delayed id = false :=
    loaded.delayed_eq_false_of_runnable
  rw [(hnodup.filter _).count] at htaken
  rw [queued, List.count_append, hcontents, hperm.count_eq id, (hnodup.filter _).count,
    hnodup.count]
  simp only [List.mem_filter] at htaken ⊢
  by_cases hid : id ∈ order
  · by_cases hr : loaded.runnable id = true
    · simpa [hid, hr, hdisj hr] using htaken
    · have hnone : taken.count id = 0 := by
        simpa [hr] using htaken
      rw [hnone, if_pos hid]
      split_ifs <;> omega
  · simpa [hid] using htaken

theorem submissionOf_requeue
    (t : Task) :
    submissionOf (requeue t) = submissionOf t := by
  unfold requeue
  split_ifs <;> rfl

theorem requeue_id
    (t : Task) :
    (requeue t).id = t.id :=
  congrArg Submission.id (submissionOf_requeue t)

theorem requeue_idempotencyKey
    (t : Task) :
    (requeue t).idempotencyKey = t.idempotencyKey :=
  congrArg Submission.idempotencyKey (submissionOf_requeue t)

theorem requeue_ne_running
    (t : Task) :
    (requeue t).state ≠ .running := by
  unfold requeue
  split_ifs with h
  · simp
  · exact h

/-- The engine that `Recover` leaves, in terms of the registry that it has loaded. -/
structure Restarted (loaded e : Engine) : Prop where
  tasks : ∀ id, e.tasks.get id = (loaded.tasks.get id).map requeue
  once : ∀ id, e.queued.count id ≤ 1
  registered : ∀ id ∈ e.queued, (e.tasks.get id).isSome = true
  buffered : ∀ id ∈ e.buffer.contents, loaded.runnable id = true
  delayed : ∀ id ∈ e.heap.inner, loaded.delayed id = true
  indexed : e.heap.Indexed
  logOpen : e.walLog.closed = false
  bufferOpen : e.buffer.closed = false
  dlq : e.dlq = loaded.dlq

theorem rebuildQueues_restarted
    {loaded e : Engine} {last : Nat}
    (hload : loadTasks cfg d = .ok (loaded, last))
    (horder : loaded.tasks.Enumerates order)
    (h : (loaded.openLog last).rebuildQueues order = some e) :
    Restarted loaded e := by
  obtain ⟨hbuf, hheap, -⟩ := loadTasks_frame hload
  have hall := rebuildQueues_some horder.1 h
  have hcount := queued_count_le hload horder.1 h
  obtain ⟨taken, hsub, hcontents, hperm⟩ := queued_perm hload horder.1 h
  have htasks : ∀ id, e.tasks.get id = (loaded.tasks.get id).map requeue := by
    intro id
    rw [hall.tasks id]
    split_ifs with hid
    · rfl
    · have hnone : loaded.tasks.get id = none := by
        simpa [horder.mem] using hid
      show loaded.tasks.get id = _
      rw [hnone]
      rfl
  refine ⟨htasks, ?_, ?_, ?_, ?_, ?_, ?_, ?_, hall.dlq⟩
  · intro id
    refine (hcount id).trans ?_
    rw [horder.1.count]
    split_ifs <;> omega
  · intro id hid
    have hmem : id ∈ order := by
      rw [← List.count_pos_iff]
      exact lt_of_lt_of_le (List.count_pos_iff.mpr hid) (hcount id)
    rw [htasks id, Option.isSome_map]
    exact horder.mem.mp hmem
  · intro id hid
    rw [hcontents] at hid
    exact (List.mem_filter.mp (hsub.subset hid)).2
  · intro id hid
    exact (List.mem_filter.mp (hperm.mem_iff.mp hid)).2
  · refine hall.indexed ?_ ?_
    · intro id _
      show id ∉ loaded.heap.inner
      rw [hheap]
      exact List.not_mem_nil
    · show loaded.heap.Indexed
      rw [hheap]
      exact Lib.IndexedHeap.empty_indexed
  · rw [hall.walLog]
    unfold openLog
    dsimp only
    split_ifs <;> rfl
  · rw [hall.settings.closed]
    show loaded.buffer.closed = false
    rw [hbuf]
    rfl

theorem Restarted.pending
    {loaded e : Engine} {id : TaskID}
    (h : Restarted loaded e)
    (hid : id ∈ e.buffer.contents) :
    e.stateOf id = some .pending := by
  have hrun := h.buffered id hid
  unfold runnable stateOf at hrun
  rw [stateOf, h.tasks id]
  cases hget : loaded.tasks.get id with
  | none =>
      simp [hget] at hrun
  | some t =>
      cases hst : t.state <;> simp_all [toBuffer, requeue]

theorem Restarted.scheduled
    {loaded e : Engine} {id : TaskID}
    (h : Restarted loaded e)
    (hid : id ∈ e.heap.inner) :
    e.stateOf id = some .scheduled := by
  have hst : loaded.stateOf id = some .scheduled := of_decide_eq_true (h.delayed id hid)
  rw [stateOf] at hst
  obtain ⟨t, ht, hts⟩ := Option.map_eq_some_iff.mp hst
  rw [stateOf, h.tasks id, ht]
  simp [requeue, hts]

/-- Every task of a loaded registry stands under its own name. -/
theorem loadTasks_named
    {loaded : Engine} {last : Nat}
    (hload : loadTasks cfg d = .ok (loaded, last))
    {id : TaskID} {t : Task}
    (ht : loaded.tasks.get id = some t) :
    t.id = id := by
  let P : Engine → Prop := fun e => ∀ id t, e.tasks.get id = some t → t.id = id
  have hregister : ∀ (e : Engine) (t : Task), P e → P (e.register t) := by
    intro e t he id t' ht'
    rw [get_register] at ht'
    split_ifs at ht' with hid
    · cases ht'
      exact hid.symm
    · exact he id t' ht'
  have hupdate : ∀ (e : Engine) (entry : Entry), P e →
      P (e.updateTask entry.taskID (entryUpdate entry)) := by
    intro e entry he id t' ht'
    rw [get_updateTask] at ht'
    split_ifs at ht' with hid
    · obtain ⟨t₀, ht₀, rfl⟩ := Option.map_eq_some_iff.mp ht'
      rw [entryUpdate_id, hid]
      exact he _ t₀ ht₀
    · exact he id t' ht'
  refine loadTasks_induction P hload ?_ ?_ id t ht
  · refine loadSnapshot_induction P ?_ (fun e st he => hregister e _ he) d.snapshot
    intro id t ht
    cases ht
  · intro e entry e' he _ happly
    rcases applyEntry_cases happly with ⟨t, -, -, rfl⟩ | ⟨-, -, rfl⟩ | ⟨-, -, rfl⟩ | rfl
    · exact hregister e t he
    · exact hupdate e entry he
    · exact hupdate e entry he
    · exact he

/-- Every task of the dead-letter queue of a loaded registry is registered. -/
theorem loadTasks_dlq
    {loaded : Engine} {last : Nat}
    (hload : loadTasks cfg d = .ok (loaded, last)) :
    ∀ id ∈ loaded.dlq, (loaded.tasks.get id).isSome = true := by
  refine loadTasks_induction (fun e => ∀ id ∈ e.dlq, (e.tasks.get id).isSome = true) hload
    ?_ ?_
  · have hnone : ((new cfg).loadSnapshot d.snapshot).dlq = [] :=
      loadSnapshot_induction (fun e => e.dlq = []) rfl (fun e st he => he) _
    rw [hnone]
    intro id hid
    cases hid
  · intro e entry e' he _ happly id hid
    have hkeep : id ∈ e.dlq → (e'.tasks.get id).isSome = true := fun hold =>
      applyEntry_isSome happly (he id hold)
    rcases applyEntry_cases happly with ⟨t, -, -, rfl⟩ | ⟨-, -, rfl⟩ | ⟨-, hsome, rfl⟩ | rfl
    · exact hkeep hid
    · exact hkeep hid
    · rcases List.mem_append.mp hid with hold | hnew
      · exact hkeep hold
      · rw [List.mem_singleton.mp hnew]
        exact applyEntry_isSome happly hsome
    · exact hkeep hid

theorem fitsBuffer_of_recoversAll
    (horder : ∀ loaded last, loadTasks cfg d = .ok (loaded, last) →
      loaded.tasks.Enumerates order)
    (h : RecoversAll cfg d order) :
    fitsBuffer cfg d = true := by
  obtain ⟨loaded, last, e, hload, hrec, hcount⟩ := h
  have henum := horder loaded last hload
  have hreb : (loaded.openLog last).rebuildQueues order = some e := by
    obtain ⟨loaded', last', hload', hreb⟩ := recover_ok hrec
    cases hload.symm.trans hload'
    exact hreb
  obtain ⟨taken, hsub, hcontents, hheap⟩ := queued_perm hload henum.1 hreb
  have hmem : ∀ id ∈ order.filter loaded.runnable, id ∈ taken := by
    intro id hid
    have hr : loaded.runnable id = true := (List.mem_filter.mp hid).2
    have hone : e.queued.count id = 1 := by
      rw [hcount id, any_isLive, hr]
      rfl
    have hin : id ∈ e.queued := by
      rw [← List.count_pos_iff, hone]
      exact Nat.one_pos
    rw [queued, List.mem_append, hcontents] at hin
    rcases hin with hin | hin
    · exact hin
    · have hdel := (List.mem_filter.mp (hheap.mem_iff.mp hin)).2
      have hs : loaded.stateOf id = some .scheduled := by
        simpa [delayed] using hdel
      simp [runnable, hs, toBuffer] at hr
  have hlen : (order.filter loaded.runnable).length ≤ taken.length :=
    ((List.subperm_of_subset (henum.1.filter _) hmem)).length_le
  obtain ⟨hbuf, -, -⟩ := loadTasks_frame hload
  have hall := rebuildQueues_some henum.1 hreb
  have hcap : e.buffer.cap = cfg.capacity := by
    rw [hall.settings.cap]
    show loaded.buffer.cap = _
    rw [hbuf]
    rfl
  have hsize := e.buffer.size_le
  rw [← e.buffer.contents_length, hcontents, hcap] at hsize
  rw [fitsBuffer, hload]
  simp only [decide_eq_true_eq]
  rw [runnable_card henum]
  omega

theorem recoversAll_of_fitsBuffer
    (horder : ∀ loaded last, loadTasks cfg d = .ok (loaded, last) →
      loaded.tasks.Enumerates order)
    (h : fitsBuffer cfg d = true) :
    RecoversAll cfg d order := by
  unfold fitsBuffer at h
  cases hload : loadTasks cfg d with
  | error err =>
      simp [hload] at h
  | ok r =>
      obtain ⟨loaded, last⟩ := r
      have henum := horder loaded last hload
      simp only [hload, decide_eq_true_eq] at h
      rw [runnable_card henum] at h
      obtain ⟨e, hreb, hcontents⟩ := rebuildQueues_of_capacity hload henum.1 h
      obtain ⟨taken, -, htaken, hperm⟩ := queued_perm hload henum.1 hreb
      have hall : taken = order.filter loaded.runnable := by
        rw [← htaken, hcontents]
      refine ⟨loaded, last, e, hload, ?_, ?_⟩
      · rw [recover, hload]
        simp only [hreb]
      · intro id
        rw [queued, List.count_append, htaken, hall, hperm.count_eq, any_isLive,
          (henum.1.filter _).count, (henum.1.filter _).count]
        simp only [List.mem_filter]
        have hdisj : loaded.runnable id = true → loaded.delayed id = false :=
          loaded.delayed_eq_false_of_runnable
        by_cases hid : id ∈ order
        · by_cases hr : loaded.runnable id = true
          · simp [hid, hr, hdisj hr]
          · simp [hid, hr]
        · have hnone : loaded.stateOf id = none := by
            have hget := henum.mem.not.mp hid
            simpa [stateOf] using hget
          simp [runnable, delayed, hnone, hid]

/--
Recovery queues every task that still has to run exactly when the log can be
read and the pending and running tasks fit in the ring buffer.
-/
theorem recover_requeues_iff
    (cfg : Config) (d : Disk) (order : List TaskID)
    (horder : ∀ loaded last, loadTasks cfg d = .ok (loaded, last) →
      loaded.tasks.Enumerates order) :
    RecoversAll cfg d order ↔ fitsBuffer cfg d = true := by
  constructor
  · exact fitsBuffer_of_recoversAll horder
  · exact recoversAll_of_fitsBuffer horder

end Requeue

/-- A check of an iteration order for the registry that the directory gives. -/
def enumeratesLoaded (cfg : Config) (d : Disk) (order : List TaskID) : Bool :=
  match loadTasks cfg d with
  | .ok (loaded, _) => decide (loaded.tasks.Enumerates order)
  | .error _ => true

theorem enumerates_of_enumeratesLoaded
    {cfg : Config} {d : Disk} {order : List TaskID}
    (h : enumeratesLoaded cfg d order = true) :
    ∀ loaded last, loadTasks cfg d = .ok (loaded, last) →
      loaded.tasks.Enumerates order := by
  intro loaded last hload
  simpa [enumeratesLoaded, hload] using h

/-- The engine that `New` and `Recover` give, visiting the registry in the given order. -/
def Recovered (cfg : Config) (d : Disk) (order : List TaskID) (e : Engine) : Prop :=
  recover cfg d order = .ok e ∧ enumeratesLoaded cfg d order = true

theorem Recovered.restarted
    {cfg : Config} {d : Disk} {order : List TaskID} {e : Engine}
    (h : Recovered cfg d order e) :
    ∃ loaded last, loadTasks cfg d = .ok (loaded, last) ∧
      loaded.tasks.Enumerates order ∧ Restarted loaded e := by
  obtain ⟨loaded, last, hload, hreb⟩ := recover_ok h.1
  have horder := enumerates_of_enumeratesLoaded h.2 loaded last hload
  exact ⟨loaded, last, hload, horder, rebuildQueues_restarted hload horder hreb⟩

/-- `Recover` returns if the directory can be read and the buffer rejects or has room. -/
theorem recover_of_room
    {cfg : Config} {d : Disk} {loaded : Engine} {last : Nat} {order : List TaskID}
    (hload : loadTasks cfg d = .ok (loaded, last))
    (horder : loaded.tasks.Enumerates order)
    (hroom : cfg.overflowPolicy = .reject ∨
      (order.filter loaded.runnable).length ≤ cfg.capacity) :
    ∃ e, recover cfg d order = .ok e ∧ Restarted loaded e := by
  rcases rebuildQueues_loaded hload horder.1 with ⟨hblock, hlt, -⟩ | ⟨-, e, he, -⟩
  · rcases hroom with hreject | hroom
    · rw [hblock] at hreject
      cases hreject
    · omega
  · exact ⟨e, recover_of_rebuildQueues hload he, rebuildQueues_restarted hload horder he⟩

/-- A process that rejects on overflow comes up on every directory that can be read. -/
theorem Loads.recovered
    {d : Disk} {P : Engine → Prop}
    (h : Loads d P)
    (cfg : Config) (hreject : cfg.overflowPolicy = .reject) :
    ∃ order loaded e, P loaded ∧ Recovered cfg d order e ∧ Restarted loaded e := by
  obtain ⟨loaded, last, hload, hP⟩ := h cfg
  obtain ⟨order, horder⟩ := loaded.tasks.exists_enumerates
  obtain ⟨e, hrec, hres⟩ := recover_of_room hload horder (Or.inl hreject)
  refine ⟨order, loaded, e, hP, ⟨hrec, ?_⟩, hres⟩
  simpa [enumeratesLoaded, hload] using horder

/-- A check of the engine that `New` and `Recover` give. -/
def recoversTo (cfg : Config) (d : Disk) (order : List TaskID) (P : Engine → Prop)
    [DecidablePred P] : Bool :=
  match recover cfg d order with
  | .ok e => decide (P e) && enumeratesLoaded cfg d order
  | _ => false

theorem recovered_of_recoversTo
    {cfg : Config} {d : Disk} {order : List TaskID} {P : Engine → Prop} [DecidablePred P]
    (h : recoversTo cfg d order P = true) :
    ∃ e, Recovered cfg d order e ∧ P e := by
  unfold recoversTo at h
  cases hrec : recover cfg d order with
  | ok e =>
      simp only [hrec, Bool.and_eq_true, decide_eq_true_eq] at h
      exact ⟨e, ⟨hrec, h.2⟩, h.1⟩
  | replayFailed err =>
      simp [hrec] at h
  | blocked =>
      simp [hrec] at h

/-- A buffer with one slot. -/
def tightConfig : Config where
  capacity := 1
  overflowPolicy := .reject
  maxRetries := 3
  defaultTimeout := 30000000000
  capacity_pos := Nat.one_pos
  maxRetries_nonneg := Config.threeRetries_nonneg

/-- A log with one pending and one scheduled task. -/
def mixedDisk : Disk where
  snapshot := none
  walBin :=
    [⟨⟨1, .enqueue, "a", 10, .ofTask { Task.zero with id := "a" }⟩, 300⟩,
      ⟨⟨2, .enqueue, "b", 20,
        .ofTask { Task.zero with id := "b", state := .scheduled, scheduledAt := 99 }⟩, 300⟩]
  walOld := []

theorem recover_requeues_iff_mixed : RecoversAll tightConfig mixedDisk ["b", "a"] :=
  (recover_requeues_iff tightConfig mixedDisk ["b", "a"]
    (enumerates_of_enumeratesLoaded (by decide +kernel))).mpr (by decide +kernel)

end Engine

namespace System

open Engine (tightConfig RecoversAll fitsBuffer)

/-- One task is with a worker and one in the buffer when the process is killed. -/
def twoRunnable : List Event :=
  [.submit Task.zero "a" 10 300, .start 20 100, .submit Task.zero "b" 30 300]

/-- The buffer of the next process has no room for both. -/
theorem recovery_dropsTask :
    ∃ s, Lib.Run step (fun _ _ => True) (initial tightConfig) twoRunnable s ∧
      Engine.enumeratesLoaded tightConfig s.disk ["a", "b"] = true ∧
      ¬ RecoversAll tightConfig s.disk ["a", "b"] := by
  obtain ⟨s, hrun, hfull, horder⟩ :=
    Lib.exists_run_of_exec step (fun _ _ => True)
      (fun s => fitsBuffer tightConfig s.disk = false ∧
        Engine.enumeratesLoaded tightConfig s.disk ["a", "b"] = true)
      (initial tightConfig) twoRunnable (by decide +kernel)
  refine ⟨s, hrun, horder, ?_⟩
  intro hall
  have hfits := Engine.fitsBuffer_of_recoversAll
    (Engine.enumerates_of_enumeratesLoaded horder) hall
  rw [hfull] at hfits
  cases hfits

end System
end TaskQueue
