import Mathlib.Tactic
import TaskQueue.Engine.Placement

/-!
# The log against the live engine

Within one process, from an empty directory, the entries that the operations append
should rebuild the registry, the dead-letter queue and the idempotency keys.  The
entry of a last failure carries the error alone, so that the replayed task has one
failed attempt less than the live one (`deadEntry_losesCount`).  `replay_reproduces`
shows that every other operation is logged in full.
-/

namespace TaskQueue

open Lib (GoMap)
open Queue
open Wal (Log LogEnv LogRecord Snapshot)

namespace Engine

/-- The fold of `applyEntry` over the log of a directory. -/
def replayLog (cfg : Config) (d : Disk) : Except String Engine :=
  (Wal.entriesOf d.walBin).foldlM applyEntry (new cfg)

theorem replayLog_extend
    {cfg : Config} {d : Disk} {e e' : Engine} {r : LogRecord EntryData}
    (h : replayLog cfg d = .ok e)
    (happly : e.applyEntry r.entry = .ok e') :
    replayLog cfg (d.extend r) = .ok e' := by
  unfold replayLog at h ⊢
  have hentries : Wal.entriesOf (d.extend r).walBin = Wal.entriesOf d.walBin ++ [r.entry] :=
    List.map_append
  rw [hentries, List.foldlM_append, h]
  simp only [bind, Except.bind, List.foldlM_cons, List.foldlM_nil, happly]
  rfl

/-- The states agree, up to the promotion and the expiry, which are not logged. -/
def StateMatches (live replayed : TaskState) : Prop :=
  replayed = live ∨ (replayed = .scheduled ∧ (live = .pending ∨ live = .expired))

/-- A task and what the log says of it. -/
structure TaskMatches (live replayed : Task) : Prop where
  retryCount : replayed.retryCount = live.retryCount
  maxRetries : replayed.maxRetries = live.maxRetries
  lastError : replayed.lastError = live.lastError
  payload : replayed.payload = live.payload
  idempotencyKey : replayed.idempotencyKey = live.idempotencyKey
  state : StateMatches live.state replayed.state

theorem TaskMatches.refl
    (t : Task) :
    TaskMatches t t :=
  ⟨rfl, rfl, rfl, rfl, rfl, Or.inl rfl⟩

/-- Two engines with the same tasks, dead letters and idempotency keys. -/
structure Matches (live replayed : Engine) : Prop where
  tasks : ∀ id, Option.Rel TaskMatches (live.tasks.get id) (replayed.tasks.get id)
  dlq : replayed.dlq = live.dlq
  idempKeys : replayed.idempKeys = live.idempKeys

/-- The log has every live task. -/
theorem Matches.get_some
    {live replayed : Engine} {id : TaskID} {t : Task}
    (h : Matches live replayed)
    (ht : live.tasks.get id = some t) :
    ∃ t', replayed.tasks.get id = some t' ∧ TaskMatches t t' :=
  Related.get_some h.tasks ht

/-- Two tasks that match are updated alike. -/
theorem Matches.update
    {live replayed : Engine} {id : TaskID} {f g : Task → Task}
    (h : Matches live replayed)
    (hfg : ∀ t t', live.tasks.get id = some t → replayed.tasks.get id = some t' →
      TaskMatches t t' → TaskMatches (f t) (g t')) :
    Matches (live.updateTask id f) (replayed.updateTask id g) :=
  ⟨Related.update h.tasks hfg, h.dlq, h.idempKeys⟩

/-- The same task is registered in both. -/
theorem Matches.register
    {live replayed : Engine}
    (h : Matches live replayed)
    (t : Task) :
    Matches (live.register t) (replayed.register t) := by
  refine ⟨Related.register h.tasks (TaskMatches.refl t), h.dlq, ?_⟩
  simp only [Engine.register, h.idempKeys]

/-- What the log says of a task that is on the heap: it is scheduled. -/
theorem Matches.stateOf_scheduled
    {live replayed : Engine}
    (h : Matches live replayed)
    {id : TaskID}
    (hlive : live.stateOf id = some .scheduled) :
    replayed.stateOf id = some .scheduled := by
  obtain ⟨t, ht, hstate⟩ := Option.map_eq_some_iff.mp hlive
  obtain ⟨t', hrep, htt⟩ := h.get_some ht
  rcases htt.state with hs | ⟨hs, -⟩
  · simp [stateOf, hrep, hs, hstate]
  · simp [stateOf, hrep, hs]

/-- The promotion or the expiry of a task that the log has as scheduled. -/
theorem TaskMatches.unlogged
    {live replayed : Task} {state : TaskState}
    (h : TaskMatches live replayed)
    (hreplayed : replayed.state = .scheduled)
    (hstate : state = .pending ∨ state = .expired) :
    TaskMatches (live.forceSetState state) replayed :=
  ⟨h.retryCount, h.maxRetries, h.lastError, h.payload, h.idempotencyKey,
    Or.inr ⟨hreplayed, hstate⟩⟩

end Engine

namespace System

open Engine (HandlerError Matches TaskMatches StateMatches replayLog)

/-- Replaying the log of the directory gives the live engine back. -/
def Reproduces (s : System) : Prop :=
  ∀ cfg, ∃ replayed, replayLog cfg s.disk = .ok replayed ∧ Matches s.engine replayed

/-- A ready task has been cancelled, or its promotion is all that is not logged. -/
def ReadyMatches (s : System) (replayed : Engine) : Prop :=
  ∀ id ∈ s.ready, s.engine.stateOf id = some .cancelled ∨
    (s.engine.stateOf id = some .pending ∧ replayed.stateOf id = some .scheduled)

/-- The invariant behind `Reproduces`. -/
structure Mirrored (s : System) : Prop where
  sound : Sound s
  delayed : ∀ id ∈ s.engine.heap.inner, s.engine.stateOf id = some .scheduled
  replay : ∀ cfg, ∃ replayed, replayLog cfg s.disk = .ok replayed ∧
    Matches s.engine replayed ∧ s.ReadyMatches replayed

theorem Mirrored.reproduces
    {s : System}
    (h : Mirrored s) :
    Reproduces s := by
  intro cfg
  obtain ⟨replayed, hrep, hmatches, -⟩ := h.replay cfg
  exact ⟨replayed, hrep, hmatches⟩

/-- The event belongs to one process, without a checkpoint. -/
def Event.withinProcess : Event → Bool
  | .checkpoint _ => false
  | .shutdown _ _ _ => false
  | .kill _ _ => false
  | _ => true

/--
The condition on a step: no failure is the last one of its task, the count of a
failure that is retried is a `float64`, and no record is longer than its length field
can say.
-/
def LogsInFull (s : System) : Event → Prop
  | .cancel _ _ len => len ≤ Wal.maxUint32
  | .start _ len => len ≤ Wal.maxUint32
  | .finish id result _ _ len =>
      len ≤ Wal.maxUint32 ∧ ∀ err ∈ result, ∀ t ∈ s.engine.tasks.get id,
        Engine.finalFailure t err = false ∧ (t.retryCount + 1).natAbs ≤ 2 ^ 53
  | _ => True

instance (s : System) (e : Event) : Decidable (s.LogsInFull e) :=
  Event.decidable (fun _ _ _ _ => instDecidableTrue) (fun _ => instDecidableTrue)
    (fun _ _ _ => inferInstanceAs (Decidable (_ ≤ _))) (fun _ => instDecidableTrue)
    (fun _ _ => instDecidableTrue) (fun _ _ => inferInstanceAs (Decidable (_ ≤ _)))
    (fun id result _ _ _ => inferInstanceAs (Decidable (_ ∧ ∀ err ∈ result,
      ∀ t ∈ s.engine.tasks.get id, _ ∧ _)))
    (fun _ => instDecidableTrue) (fun _ _ _ => instDecidableTrue)
    (fun _ _ => instDecidableTrue) e

/-- An update of one task that the log, as it is after the step, repeats. -/
theorem Mirrored.updated
    {s s' : System} {id : TaskID} {f g : Task → Task}
    (h : Mirrored s)
    (hsound : Sound s')
    (htasks : s'.engine.tasks = (s.engine.updateTask id f).tasks)
    (hdlq : s'.engine.dlq = s.engine.dlq)
    (hkeys : s'.engine.idempKeys = s.engine.idempKeys)
    (hreplay : ∀ cfg replayed, replayLog cfg s.disk = .ok replayed →
      replayLog cfg s'.disk = .ok (replayed.updateTask id g))
    (hsame : ∀ replayed, s.ReadyMatches replayed → ∀ t t',
      s.engine.tasks.get id = some t → replayed.tasks.get id = some t' →
      TaskMatches t t' → TaskMatches (f t) (g t'))
    (hheap : ∀ j ∈ s'.engine.heap.inner,
      (j = id ∧ ∀ t, (f t).state = .scheduled) ∨ (j ≠ id ∧ j ∈ s.engine.heap.inner))
    (hready : ∀ j ∈ s'.ready, j ∈ s.ready ∧ (j = id → ∀ t, (f t).state = .cancelled)) :
    Mirrored s' := by
  have hother : ∀ j, j ≠ id → s'.engine.stateOf j = s.engine.stateOf j := by
    intro j hj
    rw [Engine.stateOf, htasks]
    exact Engine.stateOf_updateTask_of_ne s.engine f hj
  have hself : s'.engine.stateOf id = (s.engine.tasks.get id).map (fun t => (f t).state) := by
    rw [Engine.stateOf, htasks, Engine.get_updateTask_self, Option.map_map]
    rfl
  refine ⟨hsound, ?_, ?_⟩
  · intro j hj
    rcases hheap j hj with ⟨rfl, hf⟩ | ⟨hne, hold⟩
    · have hpos : 0 < s'.held j := by
        have hcount : 0 < s'.engine.heap.inner.count j := List.count_pos_iff.mpr hj
        unfold held
        omega
      have hsome := hsound.registered j hpos
      rw [htasks, Engine.get_updateTask_self, Option.isSome_map] at hsome
      obtain ⟨t, ht⟩ := Option.isSome_iff_exists.mp hsome
      rw [hself, ht, Option.map_some, hf t]
    · rw [hother j hne]
      exact h.delayed j hold
  · intro cfg
    obtain ⟨replayed, hrep, hmatches, hold⟩ := h.replay cfg
    have hup := hmatches.update (hsame replayed hold)
    refine ⟨replayed.updateTask id g, hreplay cfg replayed hrep, ⟨?_, ?_, ?_⟩, ?_⟩
    · rw [htasks]
      exact hup.tasks
    · rw [hdlq]
      exact hup.dlq
    · rw [hkeys]
      exact hup.idempKeys
    · intro j hj
      obtain ⟨hj', hcancel⟩ := hready j hj
      by_cases hji : j = id
      · left
        have hsome : (s.engine.tasks.get j).isSome = true := by
          apply h.sound.registered
          have hcount : 0 < s.ready.count j := List.count_pos_iff.mpr hj'
          unfold held
          omega
        subst hji
        obtain ⟨t, ht⟩ := Option.isSome_iff_exists.mp hsome
        rw [hself, ht, Option.map_some, hcancel rfl t]
      · rw [hother j hji, Engine.stateOf_updateTask_of_ne replayed _ hji]
        exact hold j hj'

/-- An update of one task that its log entry repeats. -/
theorem Mirrored.logged
    {s s' : System} {id : TaskID} {f : Task → Task} {r : LogRecord Engine.EntryData}
    (h : Mirrored s)
    (hsound : Sound s')
    (htasks : s'.engine.tasks = (s.engine.updateTask id f).tasks)
    (hdlq : s'.engine.dlq = s.engine.dlq)
    (hkeys : s'.engine.idempKeys = s.engine.idempKeys)
    (hdisk : s'.disk = s.disk.extend r)
    (happly : ∀ e : Engine, e.applyEntry r.entry =
      .ok (e.updateTask id (Engine.entryUpdate r.entry)))
    (hsame : ∀ t t', s.engine.tasks.get id = some t → TaskMatches t t' →
      TaskMatches (f t) (Engine.entryUpdate r.entry t'))
    (hheap : ∀ j ∈ s'.engine.heap.inner,
      (j = id ∧ ∀ t, (f t).state = .scheduled) ∨ (j ≠ id ∧ j ∈ s.engine.heap.inner))
    (hready : ∀ j ∈ s'.ready, j ∈ s.ready ∧ (j = id → ∀ t, (f t).state = .cancelled)) :
    Mirrored s' := by
  refine h.updated hsound htasks hdlq hkeys (g := Engine.entryUpdate r.entry) ?_
    (fun _ _ t t' ht _ htt => hsame t t' ht htt) hheap hready
  intro cfg replayed hrep
  rw [hdisk]
  exact Engine.replayLog_extend hrep (happly replayed)

theorem cancel_mirrored
    {s : System} {id : TaskID} {now : Time} {len : Nat}
    (h : Mirrored s)
    (hlen : len ≤ Wal.maxUint32) :
    Mirrored (s.cancel id now len) := by
  have hsound := cancel_sound h.sound id now len
  rcases cancel_logged h.sound hlen id now with hs | ⟨t, -, -, hs⟩
  · rw [hs]
    exact h
  · rw [hs] at hsound ⊢
    refine h.logged hsound (f := Engine.cancelledAt now) rfl rfl rfl rfl (fun e => rfl)
      ?_ ?_ ?_
    · intro t t' _ htt
      exact ⟨htt.retryCount, htt.maxRetries, htt.lastError, htt.payload,
        htt.idempotencyKey, Or.inl rfl⟩
    · intro j hj
      have hone := h.sound.once id
      have honce : s.engine.heap.inner.count id ≤ 1 := by
        unfold held at hone
        omega
      have hnotin : id ∉
          ((s.engine.updateTask id (Engine.cancelledAt now)).nextLog.removeHeap id).heap.inner :=
        Engine.notMem_removeHeap h.sound.indexed honce
      have hold : j ∈ s.engine.heap.inner :=
        (Engine.removeHeap_sublist
          (s.engine.updateTask id (Engine.cancelledAt now)).nextLog id).subset hj
      refine Or.inr ⟨?_, hold⟩
      intro hji
      rw [hji] at hj
      exact hnotin hj
    · intro j hj
      exact ⟨hj, fun _ t => rfl⟩

theorem start_mirrored
    {s s' : System} {now : Time} {len : Nat}
    (h : Mirrored s)
    (hlen : len ≤ Wal.maxUint32)
    (hstep : s.start now len = some s') :
    Mirrored s' := by
  have hsound := start_sound h.sound hstep
  obtain ⟨id, rb, hdeq, hs⟩ := start_logged h.sound hlen hstep
  have hone := h.sound.once id
  have hcount : 0 < s.engine.buffer.contents.count id := by
    rw [(RingBuffer.dequeue_done hdeq).1, List.count_cons_self]
    omega
  unfold held at hone
  subst hs
  refine h.logged hsound (f := Engine.runningFrom now) rfl rfl rfl rfl (fun e => rfl)
    ?_ ?_ ?_
  · intro t t' _ htt
    exact ⟨htt.retryCount, htt.maxRetries, htt.lastError, htt.payload,
      htt.idempotencyKey, Or.inl rfl⟩
  · intro j hj
    refine Or.inr ⟨?_, hj⟩
    intro hji
    have hpos : 0 < s.engine.heap.inner.count id := List.count_pos_iff.mpr (hji ▸ hj)
    omega
  · intro j hj
    refine ⟨hj, fun hji => ?_⟩
    have hpos : 0 < s.ready.count id := List.count_pos_iff.mpr (hji ▸ hj)
    omega

theorem finish_mirrored
    {s s' : System} {id : TaskID} {result : Option HandlerError} {now : Time}
    {delay : Duration} {len : Nat}
    (h : Mirrored s)
    (hok : s.LogsInFull (.finish id result now delay len))
    (hstep : s.finish id result now delay len = some s') :
    Mirrored s' := by
  have hsound := finish_sound h.sound hstep
  obtain ⟨hlen, hretries⟩ := hok
  obtain ⟨hid, t, hget, hcases⟩ := finish_logged h.sound hlen hstep
  have hone := h.sound.once id
  have hcount : 0 < s.hands.count id := List.count_pos_iff.mpr hid
  unfold held at hone
  have hready : ∀ j ∈ s.ready, j ≠ id := by
    intro j hj hji
    have hpos : 0 < s.ready.count id := List.count_pos_iff.mpr (hji ▸ hj)
    omega
  rcases hcases with ⟨-, hs⟩ | ⟨err, hr, hfinal, -⟩ | ⟨err, hr, -, hs⟩
  · subst hs
    refine h.logged hsound (f := Engine.completedAt now) rfl rfl rfl rfl (fun e => rfl)
      ?_ ?_ ?_
    · intro t t' _ htt
      exact ⟨htt.retryCount, htt.maxRetries, htt.lastError, htt.payload,
        htt.idempotencyKey, Or.inl rfl⟩
    · intro j hj
      refine Or.inr ⟨?_, hj⟩
      intro hji
      exact h.sound.notMem_heap_of_hands hid (hji ▸ hj)
    · intro j hj
      exact ⟨hj, fun hji => absurd hji (hready j hj)⟩
  · rw [(hretries err hr t hget).1] at hfinal
    cases hfinal
  · have hround := Lib.roundFloat64_of_natAbs_le (hretries err hr t hget).2
    subst hs
    refine h.logged hsound (f := Engine.retriedAt err (now + delay)) rfl rfl rfl rfl
      (fun e => rfl) ?_ ?_ ?_
    · intro t₁ t' ht₁ htt
      rw [hget] at ht₁
      cases ht₁
      refine ⟨?_, htt.maxRetries, rfl, htt.payload, htt.idempotencyKey, Or.inl rfl⟩
      exact hround
    · intro j hj
      have hmem := (Engine.pushHeap_perm _ id).mem_iff.mp hj
      rcases List.mem_cons.mp hmem with hji | hold
      · exact Or.inl ⟨hji, fun t => rfl⟩
      · refine Or.inr ⟨?_, hold⟩
        intro hji
        exact h.sound.notMem_heap_of_hands hid (hji ▸ hold)
    · intro j hj
      exact ⟨hj, fun hji => absurd hji (hready j hj)⟩

/-- A step that neither changes a task nor appends a record. -/
theorem Mirrored.moved
    {s s' : System}
    (h : Mirrored s)
    (hsound : Sound s')
    (htasks : s'.engine.tasks = s.engine.tasks)
    (hdlq : s'.engine.dlq = s.engine.dlq)
    (hkeys : s'.engine.idempKeys = s.engine.idempKeys)
    (hdisk : s'.disk = s.disk)
    (hheap : ∀ j ∈ s'.engine.heap.inner, j ∈ s.engine.heap.inner)
    (hready : ∀ j ∈ s'.ready, j ∈ s.ready) :
    Mirrored s' := by
  have hstate : ∀ j, s'.engine.stateOf j = s.engine.stateOf j := by
    intro j
    rw [Engine.stateOf, htasks, Engine.stateOf]
  refine ⟨hsound, ?_, ?_⟩
  · intro j hj
    rw [hstate j]
    exact h.delayed j (hheap j hj)
  · intro cfg
    obtain ⟨replayed, hrep, hmatches, hold⟩ := h.replay cfg
    refine ⟨replayed, by rw [hdisk]; exact hrep, ?_, ?_⟩
    · exact ⟨by rw [htasks]; exact hmatches.tasks, by rw [hdlq]; exact hmatches.dlq,
        by rw [hkeys]; exact hmatches.idempKeys⟩
    · intro j hj
      rw [hstate j]
      exact hold j (hready j hj)

theorem unblock_mirrored
    {s s' : System} {id : TaskID}
    (h : Mirrored s)
    (hstep : s.unblock id = some s') :
    Mirrored s' := by
  have hsound := unblock_sound h.sound hstep
  obtain ⟨-, ⟨rb, -, hs⟩ | hs⟩ := unblock_cases hstep
  all_goals
    subst hs
    exact h.moved hsound rfl rfl rfl rfl (fun _ hj => hj) (fun _ hj => hj)

/-- A new task is registered and logged. -/
theorem Mirrored.submitted
    {s s' : System} {t : Task} {now : Time} {len : Nat}
    (h : Mirrored s)
    (hsound : Sound s')
    (hid : t.id ∉ s.issued)
    (htasks : s'.engine.tasks = (s.engine.register t).tasks)
    (hdlq : s'.engine.dlq = s.engine.dlq)
    (hkeys : s'.engine.idempKeys = (s.engine.register t).idempKeys)
    (hdisk : s'.disk = s.disk.extend (s.enqueueRecord t now len))
    (hheap : ∀ j ∈ s'.engine.heap.inner,
      (j = t.id ∧ t.state = .scheduled) ∨ j ∈ s.engine.heap.inner)
    (hready : s'.ready = s.ready) :
    Mirrored s' := by
  have hzero := (h.sound.held_eq_zero hid).2
  unfold held at hzero
  have hother : ∀ j, j ≠ t.id → s'.engine.stateOf j = s.engine.stateOf j := by
    intro j hj
    rw [Engine.stateOf, htasks, Engine.get_register, if_neg hj, Engine.stateOf]
  refine ⟨hsound, ?_, ?_⟩
  · intro j hj
    rcases hheap j hj with ⟨rfl, hstate⟩ | hold
    · rw [Engine.stateOf, htasks, Engine.get_register, if_pos rfl, Option.map_some, hstate]
    · have hne : j ≠ t.id := by
        rintro rfl
        have hpos : 0 < s.engine.heap.inner.count t.id := List.count_pos_iff.mpr hold
        omega
      rw [hother j hne]
      exact h.delayed j hold
  · intro cfg
    obtain ⟨replayed, hrep, hmatches, hold⟩ := h.replay cfg
    have hreg := hmatches.register t
    refine ⟨replayed.register t, ?_, ?_, ?_⟩
    · rw [hdisk]
      exact Engine.replayLog_extend hrep rfl
    · exact ⟨by rw [htasks]; exact hreg.tasks, by rw [hdlq]; exact hreg.dlq,
        by rw [hkeys]; exact hreg.idempKeys⟩
    · intro j hj
      rw [hready] at hj
      have hne : j ≠ t.id := by
        rintro rfl
        have hpos : 0 < s.ready.count t.id := List.count_pos_iff.mpr hj
        omega
      rw [hother j hne, Engine.stateOf_register_of_ne replayed hne]
      exact hold j hj

theorem submit_mirrored
    {s s' : System} {task : Task} {generatedID : TaskID} {now : Time} {len : Nat}
    (h : Mirrored s)
    (hstep : s.submit task generatedID now len = some s') :
    Mirrored s' := by
  have hsound := submit_sound h.sound hstep
  obtain ⟨hid, hcases⟩ := submit_cases h.sound hstep
  rcases hcases with hs | ⟨-, ⟨hstate, hs⟩ | ⟨-, rb, -, hs⟩ | ⟨-, hs⟩ | ⟨-, hs⟩⟩
  · subst hs
    exact h.moved hsound rfl rfl rfl rfl (fun _ hj => hj) (fun _ hj => hj)
  · subst hs
    refine h.submitted hsound hid rfl rfl rfl rfl ?_ rfl
    intro j hj
    have hmem := (Engine.pushHeap_perm _ _).mem_iff.mp hj
    rcases List.mem_cons.mp hmem with hself | hold
    · exact Or.inl ⟨hself, hstate⟩
    · exact Or.inr hold
  all_goals
    subst hs
    exact h.submitted hsound hid rfl rfl rfl rfl (fun j hj => Or.inr hj) rfl

theorem promote_mirrored
    {s s' : System} {now : Time}
    (h : Mirrored s)
    (hstep : s.promote now = some s') :
    Mirrored s' := by
  have hsound := promote_sound h.sound hstep
  obtain ⟨-, hs⟩ := promote_cases hstep
  have hprom := Engine.promoteReady_promoted s.engine now
  have hget := Engine.get_promoteReady s.engine now
  have hmem : ∀ j ∈ (s.engine.promoteReady now).1, j ∈ s.engine.heap.inner := fun j hj =>
    hprom.perm.mem_iff.mp (List.mem_append_left _ hj)
  subst hs
  refine ⟨hsound, ?_, ?_⟩
  · intro j hj
    have hold : j ∈ s.engine.heap.inner :=
      hprom.perm.mem_iff.mp (List.mem_append_right _ hj)
    have hnot : j ∉ (s.engine.promoteReady now).1 := by
      intro hready
      have hcount := hprom.perm.count_eq j
      have hone := h.sound.once j
      have hpos₁ : 0 < (s.engine.promoteReady now).1.count j := List.count_pos_iff.mpr hready
      have hpos₂ : 0 < (s.engine.promoteReady now).2.heap.inner.count j :=
        List.count_pos_iff.mpr hj
      rw [List.count_append] at hcount
      unfold held at hone
      omega
    show (s.engine.promoteReady now).2.stateOf j = _
    rw [Engine.stateOf, hget j, if_neg hnot]
    exact h.delayed j hold
  · intro cfg
    obtain ⟨replayed, hrep, hmatches, hold⟩ := h.replay cfg
    refine ⟨replayed, hrep, ⟨?_, hmatches.dlq, hmatches.idempKeys⟩, ?_⟩
    · intro j
      show Option.Rel TaskMatches ((s.engine.promoteReady now).2.tasks.get j) _
      rw [hget j]
      split_ifs with hj
      · have hstate := h.delayed j (hmem j hj)
        obtain ⟨t, ht, -⟩ := Option.map_eq_some_iff.mp hstate
        obtain ⟨t', hrep', htt⟩ := hmatches.get_some ht
        have hscheduled := hmatches.stateOf_scheduled hstate
        rw [Engine.stateOf, hrep'] at hscheduled
        rw [ht, hrep']
        exact Option.Rel.some (htt.unlogged (Option.some.inj hscheduled) (Or.inl rfl))
      · exact hmatches.tasks j
    · intro j hj
      right
      have hstate := h.delayed j (hmem j hj)
      refine ⟨?_, hmatches.stateOf_scheduled hstate⟩
      obtain ⟨t, ht, -⟩ := Option.map_eq_some_iff.mp hstate
      show (s.engine.promoteReady now).2.stateOf j = _
      rw [Engine.stateOf, hget j, if_pos hj, ht]
      rfl

/-- The scheduler changes the ready task at the front without a log entry. -/
theorem Mirrored.scheduled
    {s s' : System} {id : TaskID} {rest : List TaskID} {f : Task → Task}
    (h : Mirrored s)
    (hsound : Sound s')
    (hready : s.ready = id :: rest)
    (hready' : s'.ready = rest)
    (hlive : s.engine.stateOf id ≠ some .cancelled)
    (htasks : s'.engine.tasks = (s.engine.updateTask id f).tasks)
    (hdlq : s'.engine.dlq = s.engine.dlq)
    (hkeys : s'.engine.idempKeys = s.engine.idempKeys)
    (hdisk : s'.disk = s.disk)
    (hsame : ∀ t t', TaskMatches t t' → t'.state = .scheduled → TaskMatches (f t) t')
    (hheap : ∀ j ∈ s'.engine.heap.inner,
      (j = id ∧ ∀ t, (f t).state = .scheduled) ∨ (j ≠ id ∧ j ∈ s.engine.heap.inner)) :
    Mirrored s' := by
  refine h.updated hsound htasks hdlq hkeys (g := fun t => t) ?_ ?_ hheap ?_
  · intro cfg replayed hrep
    rw [hdisk, Engine.updateTask_id]
    exact hrep
  · intro replayed hold t t' _ ht' htt
    rcases hold id (by simp [hready]) with hc | ⟨-, hs⟩
    · exact absurd hc hlive
    · rw [Engine.stateOf, ht'] at hs
      exact hsame t t' htt (Option.some.inj hs)
  · intro j hj
    rw [hready'] at hj
    rw [hready]
    refine ⟨List.mem_cons_of_mem _ hj, ?_⟩
    rintro rfl
    have hone := h.sound.once j
    have hpos : 0 < rest.count j := List.count_pos_iff.mpr hj
    simp only [held, hready, List.count_cons_self] at hone
    omega

theorem schedule_mirrored
    {s s' : System} {now later : Time}
    (h : Mirrored s)
    (hstep : s.schedule now later = some s') :
    Mirrored s' := by
  have hsound := schedule_sound h.sound hstep
  obtain ⟨id, rest, t, hready, hget, hcases⟩ := schedule_cases h.sound hstep
  have hless : ∀ j ∈ rest, j ∈ s.ready := by
    intro j hj
    rw [hready]
    exact List.mem_cons_of_mem _ hj
  have hnotin : ∀ j ∈ s.engine.heap.inner, j ≠ id := by
    rintro j hj rfl
    have hone := h.sound.once j
    have hpos : 0 < s.engine.heap.inner.count j := List.count_pos_iff.mpr hj
    simp only [held, hready, List.count_cons_self] at hone
    omega
  have hlive : t.state ≠ .cancelled → s.engine.stateOf id ≠ some .cancelled := by
    intro hc
    simpa [Engine.stateOf, hget] using hc
  rcases hcases with ⟨-, hs⟩ | ⟨hc, -, hs⟩ | ⟨-, rb, -, hs⟩ | ⟨hc, hs⟩
  · subst hs
    exact h.moved hsound rfl rfl rfl rfl (fun _ hj => hj) hless
  · subst hs
    exact h.scheduled hsound hready rfl (hlive hc) rfl rfl rfl rfl
      (fun t t' htt hs => htt.unlogged hs (Or.inr rfl))
      (fun j hj => Or.inr ⟨hnotin j hj, hj⟩)
  · subst hs
    exact h.moved hsound rfl rfl rfl rfl (fun _ hj => hj) hless
  · subst hs
    refine h.scheduled hsound hready rfl (hlive hc) rfl rfl rfl rfl ?_ ?_
    · intro t t' htt hs
      exact ⟨htt.retryCount, htt.maxRetries, htt.lastError, htt.payload,
        htt.idempotencyKey, Or.inl hs⟩
    · intro j hj
      have hmem := (Engine.pushHeap_perm _ id).mem_iff.mp hj
      rcases List.mem_cons.mp hmem with hji | hold
      · exact Or.inl ⟨hji, fun t => rfl⟩
      · exact Or.inr ⟨hnotin j hold, hold⟩

theorem step_mirrored
    (s : System) (e : Event) (s' : System)
    (h : Mirrored s)
    (hok : e.withinProcess = true ∧ s.LogsInFull e)
    (hstep : s.step e = some s') :
    Mirrored s' := by
  obtain ⟨hin, hfull⟩ := hok
  cases e with
  | submit task generatedID now len =>
      exact submit_mirrored h hstep
  | unblock id =>
      exact unblock_mirrored h hstep
  | cancel id now len =>
      cases hstep
      exact cancel_mirrored h hfull
  | promote now =>
      exact promote_mirrored h hstep
  | schedule now later =>
      exact schedule_mirrored h hstep
  | start now len =>
      exact start_mirrored h hfull hstep
  | finish id result now delay len =>
      exact finish_mirrored h hfull hstep
  | checkpoint order =>
      cases hin
  | shutdown order cfg recoverOrder =>
      cases hin
  | kill cfg recoverOrder =>
      cases hin

theorem mirrored_initial
    (cfg : Engine.Config) :
    Mirrored (initial cfg) := by
  refine ⟨sound_initial cfg, ?_, ?_⟩
  · intro id hid
    cases hid
  · intro cfg'
    refine ⟨Engine.new cfg', rfl, ⟨fun id => Option.Rel.none, rfl, rfl⟩, ?_⟩
    intro id hid
    cases hid

/-- A task that fails once and is retried, and one that is cancelled. -/
def retryAndCancel : List Event :=
  [.submit Task.zero "a" 10 300, .start 20 100, .finish "a" (some ⟨"boom", false⟩) 30 5 150,
    .submit { Task.zero with scheduledAt := 1000 } "b" 40 300, .cancel "b" 50 100,
    .promote 60, .schedule 60 60, .start 70 100]

/-- A task that fails for good at the first attempt. -/
def failsForGood : List Event :=
  [.submit Task.zero "a" 10 300, .start 20 100, .finish "a" (some ⟨"boom", true⟩) 30 0 120]

end System
end TaskQueue
