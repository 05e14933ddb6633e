import TaskQueue.Engine.Effects
import TaskQueue.Queue.PriorityQueue

/-!
# One pass of the scheduler

`Scheduler.Run` of `internal/queue/scheduler.go` goes around a loop: `PromoteReady` takes the
due tasks out of the heap, and an inner loop puts each of them somewhere.

* A task whose `ExpiresAt` is set and past becomes Expired and goes nowhere.
* A task for which the ring buffer has room is appended to it.
* Any other task goes back into the heap, 100 ms later.

`Placed` says where a list of ready tasks went; it is proved for one turn of the inner loop
and composed over the whole loop.  The clock is read again at every task, for the check of
`ExpiresAt` and for the new time of a task that goes back, never earlier than the reading that
`PromoteReady` got.
-/

namespace TaskQueue
namespace Engine

open Queue
open Lib (GoMap IndexedHeap Releases)

/--
One pass: the tasks that are due at `now`, each with the two readings of the clock at its turn
of the inner loop.
-/
def schedulerPass (e : Engine) (now : Time) (clock later : TaskID → Time) : Option Engine :=
  (e.promoteReady now).1.foldlM
    (fun e id => e.scheduleReady id (clock id) (later id)) (e.promoteReady now).2

/-- The invariant of the heap: positions, order, and entries that stand for tasks. -/
structure HeapValid (e : Engine) : Prop where
  indexed : e.heap.Indexed
  ordered : e.heap.Ordered e.scheduledAt
  known : ∀ id ∈ e.heap.inner, ∃ t, e.tasks.get id = some t

/-- Where the ready tasks `ids` went. -/
structure Placed (clock later : TaskID → Time) (e e' : Engine)
    (ids appended gone back : List TaskID) : Prop where
  places : (ids : Multiset TaskID) = appended + gone + back
  inOrder : appended.Sublist ids
  buffer : e'.buffer.contents = e.buffer.contents ++ appended
  settings : RingBuffer.SameSettings e.buffer e'.buffer
  heap : e'.heap.bag = e.heap.bag + back
  others : ∀ id, id ∉ gone → id ∉ back → e'.tasks.get id = e.tasks.get id
  expired : ∀ id ∈ gone, ∃ t, e.tasks.get id = some t ∧ expired t (clock id) = true ∧
    e'.tasks.get id = some (t.forceSetState .expired)
  postponed : ∀ id ∈ back, ∃ t, e.tasks.get id = some t ∧
    e'.tasks.get id = some (postponedTo (later id + 100000000) t)

section Placed

variable {clock later : TaskID → Time} {e e' e'' : Engine} {ids appended gone back : List TaskID}

theorem Placed.nothing :
    Placed clock later e e [] [] [] [] where
  places := rfl
  inOrder := List.Sublist.refl []
  buffer := (List.append_nil _).symm
  settings := ⟨rfl, rfl, rfl⟩
  heap := (add_zero _).symm
  others := fun _ _ _ => rfl
  expired := by simp
  postponed := by simp

theorem Placed.mem_ids
    (h : Placed clock later e e' ids appended gone back)
    {id : TaskID} :
    id ∈ ids ↔ id ∈ appended ∨ id ∈ gone ∨ id ∈ back := by
  have hmem : id ∈ ids ↔ id ∈ (ids : Multiset TaskID) := Iff.rfl
  rw [hmem, h.places]
  simp

/-- A task that was not ready is not written to. -/
theorem Placed.get_of_notMem
    (h : Placed clock later e e' ids appended gone back)
    {id : TaskID}
    (hid : id ∉ ids) :
    e'.tasks.get id = e.tasks.get id := by
  rw [h.mem_ids, not_or, not_or] at hid
  exact h.others id hid.2.1 hid.2.2

theorem Placed.mem_heap
    (h : Placed clock later e e' ids appended gone back)
    {id : TaskID} :
    id ∈ e'.heap.inner ↔ id ∈ e.heap.inner ∨ id ∈ back := by
  have hmem : id ∈ e'.heap.inner ↔ id ∈ e'.heap.bag := Iff.rfl
  rw [hmem, h.heap, Multiset.mem_add]
  exact Iff.rfl

/-- Two groups of ready tasks, one after the other. -/
theorem Placed.trans
    {ids' appended' gone' back' : List TaskID}
    (h : Placed clock later e e' ids appended gone back)
    (h' : Placed clock later e' e'' ids' appended' gone' back')
    (hdisjoint : ids.Disjoint ids') :
    Placed clock later e e'' (ids ++ ids') (appended ++ appended') (gone ++ gone')
      (back ++ back') where
  places := by
    simp only [← Multiset.coe_add, h.places, h'.places]
    abel
  inOrder := h.inOrder.append h'.inOrder
  buffer := by
    rw [h'.buffer, h.buffer, List.append_assoc]
  settings := ⟨h'.settings.cap.trans h.settings.cap,
    h'.settings.closed.trans h.settings.closed,
    h'.settings.policy.trans h.settings.policy⟩
  heap := by
    rw [h'.heap, h.heap, add_assoc, Multiset.coe_add]
  others := by
    intro id hgone hback
    rw [List.mem_append, not_or] at hgone hback
    rw [h'.others id hgone.2 hback.2, h.others id hgone.1 hback.1]
  expired := by
    intro id hid
    rcases List.mem_append.mp hid with hid | hid
    · obtain ⟨t, hget, hexp, hget'⟩ := h.expired id hid
      have hids : id ∈ ids := h.mem_ids.mpr (Or.inr (Or.inl hid))
      exact ⟨t, hget, hexp, (h'.get_of_notMem (hdisjoint hids)).trans hget'⟩
    · obtain ⟨t, hget, hexp, hget'⟩ := h'.expired id hid
      have hids : id ∈ ids' := h'.mem_ids.mpr (Or.inr (Or.inl hid))
      exact ⟨t, (h.get_of_notMem (hdisjoint.symm hids)).symm.trans hget, hexp, hget'⟩
  postponed := by
    intro id hid
    rcases List.mem_append.mp hid with hid | hid
    · obtain ⟨t, hget, hget'⟩ := h.postponed id hid
      have hids : id ∈ ids := h.mem_ids.mpr (Or.inr (Or.inr hid))
      exact ⟨t, hget, (h'.get_of_notMem (hdisjoint hids)).trans hget'⟩
    · obtain ⟨t, hget, hget'⟩ := h'.postponed id hid
      have hids : id ∈ ids' := h'.mem_ids.mpr (Or.inr (Or.inr hid))
      exact ⟨t, (h.get_of_notMem (hdisjoint.symm hids)).symm.trans hget, hget'⟩

end Placed

/-- A write to a task that is not in the heap keeps the heap valid. -/
theorem HeapValid.updateTask
    {e : Engine} {id : TaskID}
    (h : e.HeapValid)
    (hid : id ∉ e.heap.inner)
    (f : Task → Task) :
    (e.updateTask id f).HeapValid := by
  have hget : ∀ j ∈ e.heap.inner, (e.updateTask id f).tasks.get j = e.tasks.get j := by
    intro j hj
    refine get_updateTask_of_ne e f ?_
    rintro rfl
    exact hid hj
  constructor
  · exact h.indexed
  · refine h.ordered.congr ?_
    intro j hj
    rw [scheduledAt, hget j hj, scheduledAt]
  · intro j hj
    rw [hget j hj]
    exact h.known j hj

theorem HeapValid.pushHeap
    {e : Engine} {id : TaskID} {t : Task}
    (h : e.HeapValid)
    (hid : id ∉ e.heap.inner)
    (hget : e.tasks.get id = some t) :
    (e.pushHeap id).HeapValid := by
  constructor
  · exact pushHeap_indexed h.indexed hid
  · exact IndexedHeap.push_ordered h.ordered id
  · intro j hj
    rcases List.mem_cons.mp ((pushHeap_perm e id).mem_iff.mp hj) with rfl | hj
    · exact ⟨t, hget⟩
    · exact h.known j hj

section Turn

variable {e : Engine} {id : TaskID} {t : Task} (clock later : TaskID → Time)

/-- The turn of a task that has expired. -/
theorem placed_expired
    (hget : e.tasks.get id = some t)
    (hexp : Engine.expired t (clock id) = true) :
    Placed clock later e (e.updateTask id (Task.forceSetState · .expired)) [id] [] [id] [] := by
  constructor
  · rfl
  · exact List.nil_sublist [id]
  · exact (List.append_nil _).symm
  · exact ⟨rfl, rfl, rfl⟩
  · exact (add_zero _).symm
  · intro j hj _
    exact get_updateTask_of_ne e _ (List.mem_singleton.not.mp hj)
  · intro j hj
    rw [List.mem_singleton] at hj
    subst hj
    exact ⟨t, hget, hexp, by rw [get_updateTask_self, hget]; rfl⟩
  · simp

theorem get_postpone_self
    (hget : e.tasks.get id = some t)
    (now : Time) :
    (e.postpone id now).tasks.get id = some (postponedTo (now + 100000000) t) := by
  rw [postpone, get_updateTask_self, hget]
  rfl

/-- The turn of a task that the buffer refuses. -/
theorem placed_postponed
    (hget : e.tasks.get id = some t) :
    Placed clock later e ((e.postpone id (later id)).pushHeap id) [id] [] [] [id] := by
  constructor
  · rfl
  · exact List.nil_sublist [id]
  · exact (List.append_nil _).symm
  · exact ⟨rfl, rfl, rfl⟩
  · refine (Multiset.coe_eq_coe.mpr (pushHeap_perm (e.postpone id (later id)) id)).trans ?_
    exact Multiset.coe_eq_coe.mpr (List.perm_append_singleton id e.heap.inner).symm
  · intro j _ hj
    exact get_updateTask_of_ne e _ (List.mem_singleton.not.mp hj)
  · simp
  · intro j hj
    rw [List.mem_singleton] at hj
    subst hj
    exact ⟨t, hget, get_postpone_self hget (later j)⟩

/-- The turn of a task for which the buffer has room. -/
theorem placed_appended
    {rb : RingBuffer TaskID}
    (henq : e.buffer.enqueue id = .done rb) :
    Placed clock later e { e with buffer := rb } [id] [id] [] [] := by
  obtain ⟨hcontents, hsettings⟩ := RingBuffer.enqueue_done henq
  constructor
  · rfl
  · exact List.Sublist.refl [id]
  · exact hcontents
  · exact hsettings
  · exact (add_zero _).symm
  · intro j _ _
    rfl
  · simp
  · simp

/-- One turn of the inner loop, under the reject policy. -/
theorem scheduleReady_placed
    (hvalid : e.HeapValid)
    (hopen : e.buffer.closed = false)
    (hpolicy : e.buffer.policy = .reject)
    (hid : id ∉ e.heap.inner)
    (hget : e.tasks.get id = some t)
    (hstate : t.state = .pending) :
    ∃ e' appended gone back, e.scheduleReady id (clock id) (later id) = some e' ∧ e'.HeapValid ∧
      Placed clock later e e' [id] appended gone back := by
  by_cases hexp : Engine.expired t (clock id) = true
  · refine ⟨e.updateTask id (Task.forceSetState · .expired), [], [id], [], ?_,
      hvalid.updateTask hid _, placed_expired clock later hget hexp⟩
    simp [scheduleReady, hget, hstate, hexp]
  · by_cases hfull : e.buffer.size = e.buffer.cap
    · have henq := RingBuffer.enqueue_of_full hopen hfull id
      rw [if_pos hpolicy] at henq
      have hback := (hvalid.updateTask hid _).pushHeap hid (get_postpone_self hget (later id))
      refine ⟨(e.postpone id (later id)).pushHeap id, [], [], [id], ?_, hback,
        placed_postponed clock later hget⟩
      simp [scheduleReady, hget, hstate, hexp, henq]
    · have hroom := Nat.lt_of_le_of_ne e.buffer.size_le hfull
      have henq := RingBuffer.enqueue_of_room hopen hroom id
      refine ⟨{ e with buffer := e.buffer.put id hroom }, [id], [], [], ?_,
        ⟨hvalid.indexed, hvalid.ordered, hvalid.known⟩, placed_appended clock later henq⟩
      simp [scheduleReady, hget, hstate, hexp, henq]

/-- The inner loop over ready tasks, none of them twice and none in the heap. -/
theorem foldlM_scheduleReady_placed
    (ids : List TaskID)
    (hnodup : ids.Nodup)
    (hvalid : e.HeapValid)
    (hopen : e.buffer.closed = false)
    (hpolicy : e.buffer.policy = .reject)
    (hout : ∀ id ∈ ids, id ∉ e.heap.inner)
    (hready : ∀ id ∈ ids, ∃ t, e.tasks.get id = some t ∧ t.state = .pending) :
    ∃ e' appended gone back,
      ids.foldlM (fun e id => e.scheduleReady id (clock id) (later id)) e = some e' ∧
      e'.HeapValid ∧ Placed clock later e e' ids appended gone back := by
  induction ids generalizing e with
  | nil =>
      exact ⟨e, [], [], [], rfl, hvalid, Placed.nothing⟩
  | cons id ids ih =>
      obtain ⟨hid, hnodup⟩ := List.nodup_cons.mp hnodup
      obtain ⟨t, hget, hstate⟩ := hready id List.mem_cons_self
      obtain ⟨e₁, a₁, g₁, b₁, hturn, hvalid₁, hplaced₁⟩ :=
        scheduleReady_placed clock later hvalid hopen hpolicy (hout id List.mem_cons_self) hget
          hstate
      have hother : ∀ j ∈ ids, j ∉ [id] := by
        intro j hj hmem
        rw [List.mem_singleton] at hmem
        exact hid (hmem ▸ hj)
      obtain ⟨e₂, a₂, g₂, b₂, hloop, hvalid₂, hplaced₂⟩ := ih hnodup hvalid₁
        (hplaced₁.settings.closed.trans hopen) (hplaced₁.settings.policy.trans hpolicy)
        (by
          intro j hj hmem
          rcases hplaced₁.mem_heap.mp hmem with hmem | hmem
          · exact hout j (List.mem_cons_of_mem id hj) hmem
          · exact hother j hj (hplaced₁.mem_ids.mpr (Or.inr (Or.inr hmem))))
        (by
          intro j hj
          rw [hplaced₁.get_of_notMem (hother j hj)]
          exact hready j (List.mem_cons_of_mem id hj))
      refine ⟨e₂, a₁ ++ a₂, g₁ ++ g₂, b₁ ++ b₂, ?_, hvalid₂, hplaced₁.trans hplaced₂ ?_⟩
      · rw [List.foldlM_cons, hturn]
        exact hloop
      · intro j hj hj'
        exact hother j hj' hj

end Turn

section Promote

variable {e : Engine} (now : Time)

/-- The writes of `PromoteReady` leave the times alone. -/
theorem scheduledAt_promoteReady :
    (e.promoteReady now).2.scheduledAt = e.scheduledAt := by
  funext id
  rw [scheduledAt, get_promoteReady, scheduledAt]
  split_ifs
  · cases e.tasks.get id <;> rfl
  · rfl

theorem promoteReady_releases
    (h : e.HeapValid) :
    Releases e.scheduledAt now e.heap.bag (e.promoteReady now).1
      (e.promoteReady now).2.heap.bag :=
  (DelayedHeap.promoteReady_releases now h.ordered).1

theorem HeapValid.promoteReady
    (h : e.HeapValid) :
    (e.promoteReady now).2.HeapValid := by
  constructor
  · exact (promoteReady_promoted e now).indexed h.indexed
  · rw [scheduledAt_promoteReady]
    exact (DelayedHeap.promoteReady_releases now h.ordered).2
  · intro id hid
    obtain ⟨t, hget⟩ := h.known id ((promoteReady_releases now h).mem_later.mp hid).1
    rw [get_promoteReady, hget]
    split_ifs
    · exact ⟨t.forceSetState .pending, rfl⟩
    · exact ⟨t, rfl⟩

end Promote

/--
What one pass leaves: every due task is in one of three lists, once.

The first list was appended to the ring buffer, the second is in no queue, the third is
back in the heap; everything else stays as it was.
-/
structure PassOutcome (e e' : Engine) (now : Time) (clock : TaskID → Time)
    (appended gone back : List TaskID) : Prop where
  due : ((appended ++ gone ++ back : List TaskID) : Multiset TaskID) =
    e.heap.bag.filter (fun id => e.scheduledAt id ≤ now)
  once : (appended ++ gone ++ back).Nodup
  buffer : e'.buffer.contents = e.buffer.contents ++ appended
  heap : e'.heap.bag = e.heap.bag.filter (fun id => now < e.scheduledAt id) + back
  valid : e'.HeapValid
  pending : ∀ id ∈ appended, id ∉ e'.heap.inner ∧
    ∃ t, e.tasks.get id = some t ∧ e'.tasks.get id = some (t.forceSetState .pending)
  inOrder : appended.Pairwise (fun a b => e'.scheduledAt a ≤ e'.scheduledAt b)
  expired : ∀ id ∈ gone, id ∉ e'.heap.inner ∧
    (id ∈ e'.buffer.contents ↔ id ∈ e.buffer.contents) ∧
    ∃ t, e.tasks.get id = some t ∧ t.expiresAt ≠ zeroTime ∧ t.expiresAt < clock id ∧
      e'.tasks.get id = some (t.forceSetState .expired)
  postponed : ∀ id ∈ back, (id ∈ e'.buffer.contents ↔ id ∈ e.buffer.contents) ∧
    ∃ t at_, e.tasks.get id = some t ∧ now < at_ ∧ e'.tasks.get id =
      some { t with state := .scheduled, scheduledAt := at_ }
  unchanged : ∀ id, ¬ (id ∈ e.heap.bag ∧ e.scheduledAt id ≤ now) →
    e'.tasks.get id = e.tasks.get id

section Outcome

variable {e e' : Engine} {now : Time} {clock later : TaskID → Time}
variable {appended gone back : List TaskID}

/-- A promoted task is Pending, with its other fields as before. -/
theorem get_promoted
    (h : e.HeapValid)
    {id : TaskID}
    (hid : id ∈ (e.promoteReady now).1) :
    ∃ t, e.tasks.get id = some t ∧
      (e.promoteReady now).2.tasks.get id = some (t.forceSetState .pending) := by
  obtain ⟨t, hget⟩ := h.known id ((promoteReady_releases now h).mem_due.mp hid).1
  refine ⟨t, hget, ?_⟩
  rw [get_promoteReady, if_pos hid, hget]
  rfl

/-- No task is promoted twice, and none that is promoted stays in the heap. -/
theorem promoteReady_nodup
    (now : Time)
    (h : e.HeapValid) :
    ((e.promoteReady now).1 ++ (e.promoteReady now).2.heap.inner).Nodup :=
  (promoteReady_promoted e now).perm.nodup_iff.mpr h.indexed.nodup

/-- What the inner loop did with the promoted tasks, as seen from before the pass. -/
theorem Placed.outcome
    (hlater : ∀ id, now ≤ later id)
    (hvalid : e.HeapValid)
    (hvalid' : e'.HeapValid)
    (h : Placed clock later (e.promoteReady now).2 e' (e.promoteReady now).1 appended gone back) :
    PassOutcome e e' now clock appended gone back := by
  have hreleases := promoteReady_releases now hvalid
  obtain ⟨hready, -, hleft⟩ := List.nodup_append'.mp (promoteReady_nodup now hvalid)
  have hplaces : ((appended ++ gone ++ back : List TaskID) : Multiset TaskID) =
      (e.promoteReady now).1 := by
    rw [h.places, Multiset.coe_add, Multiset.coe_add]
  have honce : (appended ++ gone ++ back).Nodup :=
    (Multiset.coe_eq_coe.mp hplaces).nodup_iff.mpr hready
  obtain ⟨hfront, -, hback⟩ := List.nodup_append'.mp honce
  obtain ⟨-, -, hgone⟩ := List.nodup_append'.mp hfront
  -- a promoted task that did not go back is not in the heap
  have hout : ∀ id ∈ appended ++ gone, id ∉ e'.heap.inner := by
    intro id hid hmem
    rcases h.mem_heap.mp hmem with hmem | hmem
    · refine hleft (h.mem_ids.mpr ?_) hmem
      rw [← or_assoc, ← List.mem_append]
      exact Or.inl hid
    · exact hback hid hmem
  have hbuffer : ∀ id, id ∉ appended → (id ∈ e'.buffer.contents ↔ id ∈ e.buffer.contents) := by
    intro id hid
    rw [h.buffer, List.mem_append, or_iff_left hid]
    rfl
  have hget : ∀ id ∈ appended, ∃ t, e.tasks.get id = some t ∧
      e'.tasks.get id = some (t.forceSetState .pending) := by
    intro id hid
    obtain ⟨t, hold, hnew⟩ := get_promoted hvalid (h.mem_ids.mpr (Or.inl hid))
    refine ⟨t, hold, (h.others id (hgone hid) ?_).trans hnew⟩
    exact hback (List.mem_append_left gone hid)
  exact {
    due := hplaces.trans hreleases.due
    once := honce
    buffer := h.buffer
    heap := by rw [h.heap, hreleases.later]
    valid := hvalid'
    pending := fun id hid => ⟨hout id (List.mem_append_left gone hid), hget id hid⟩
    inOrder := by
      refine (hreleases.sorted.sublist h.inOrder).imp_of_mem ?_
      intro a b ha hb hle
      obtain ⟨t, hold, hnew⟩ := hget a ha
      obtain ⟨u, hold', hnew'⟩ := hget b hb
      simpa [scheduledAt, hold, hnew, hold', hnew', Task.forceSetState] using hle
    expired := by
      intro id hid
      refine ⟨hout id (List.mem_append_right appended hid),
        hbuffer id (fun hmem => hgone hmem hid), ?_⟩
      obtain ⟨t, hold, hnew⟩ := get_promoted hvalid (h.mem_ids.mpr (Or.inr (Or.inl hid)))
      obtain ⟨u, hu, hexp, hget'⟩ := h.expired id hid
      cases hu.symm.trans hnew
      simp only [Engine.expired, Bool.and_eq_true, decide_eq_true_eq] at hexp
      exact ⟨t, hold, hexp.1, hexp.2, hget'⟩
    postponed := by
      intro id hid
      refine ⟨hbuffer id (fun hmem => hback (List.mem_append_left gone hmem) hid), ?_⟩
      obtain ⟨t, hold, hnew⟩ := get_promoted hvalid (h.mem_ids.mpr (Or.inr (Or.inr hid)))
      obtain ⟨u, hu, hget'⟩ := h.postponed id hid
      cases hu.symm.trans hnew
      exact ⟨t, later id + 100000000, hold,
        lt_add_of_le_of_pos (hlater id) (by decide), hget'⟩
    unchanged := by
      intro id hid
      have hnot : id ∉ (e.promoteReady now).1 := fun hmem => hid (hreleases.mem_due.mp hmem)
      rw [h.get_of_notMem hnot, get_promoteReady, if_neg hnot] }

end Outcome

/-- A pass over a valid heap and an open buffer that rejects puts every due task somewhere. -/
theorem schedulerPass_places_due
    (e : Engine) (now : Time) (clock later : TaskID → Time)
    (hlater : ∀ id, now ≤ later id)
    (hvalid : e.HeapValid)
    (hopen : e.buffer.closed = false)
    (hpolicy : e.buffer.policy = .reject) :
    ∃ e' appended gone back, e.schedulerPass now clock later = some e' ∧
      PassOutcome e e' now clock appended gone back := by
  obtain ⟨hready, -, hleft⟩ := List.nodup_append'.mp (promoteReady_nodup now hvalid)
  have hpending : ∀ id ∈ (e.promoteReady now).1, ∃ t,
      (e.promoteReady now).2.tasks.get id = some t ∧ t.state = .pending := by
    intro id hid
    obtain ⟨t, -, hget⟩ := get_promoted hvalid hid
    exact ⟨t.forceSetState .pending, hget, rfl⟩
  obtain ⟨e', appended, gone, back, hpass, hvalid', hplaced⟩ :=
    foldlM_scheduleReady_placed clock later (e.promoteReady now).1 hready
      (hvalid.promoteReady now) hopen hpolicy (fun id hid => hleft hid) hpending
  exact ⟨e', appended, gone, back, hpass, hplaced.outcome hlater hvalid hvalid'⟩

/-- A buffer for one task. -/
def narrowConfig : Config where
  capacity := 1
  overflowPolicy := .reject
  maxRetries := 3
  defaultTimeout := 30000000000
  capacity_pos := by decide
  maxRetries_nonneg := Config.threeRetries_nonneg

/-- A task that waits for its time; `"late"` has expired at time 5. -/
def waitingUntil (id : TaskID) (at_ : Time) : Task :=
  { Task.zero with
    id := id
    state := .scheduled
    scheduledAt := at_
    expiresAt := if id = "late" then 5 else zeroTime }

/-- Four tasks in the heap, three of them due at time 10. -/
def fourDelayed : Engine :=
  let tasks := ((GoMap.empty.set "late" (waitingUntil "late" 3)).set
    "second" (waitingUntil "second" 7)).set "first" (waitingUntil "first" 4)
  let e := { new narrowConfig with
    tasks := tasks.set "early" (waitingUntil "early" 20) }
  (((e.pushHeap "early").pushHeap "second").pushHeap "late").pushHeap "first"

theorem fourDelayed_valid : fourDelayed.HeapValid := by
  have hempty : ∀ tasks, ({ new narrowConfig with tasks := tasks } : Engine).HeapValid := by
    intro tasks
    constructor
    · exact IndexedHeap.empty_indexed
    · exact IndexedHeap.empty_ordered _
    · intro id hid
      cases hid
  refine HeapValid.pushHeap (HeapValid.pushHeap (HeapValid.pushHeap (HeapValid.pushHeap
    (hempty _) ?_ rfl) ?_ rfl) ?_ rfl) ?_ rfl <;> decide +kernel

theorem schedulerPass_places_due_three :
    ∃ e', fourDelayed.schedulerPass 10 (fun _ => 10) (fun _ => 11) = some e' ∧
      e'.buffer.contents = ["first"] ∧ e'.heap.inner = ["early", "second"] ∧
      ∃ appended gone back, PassOutcome fourDelayed e' 10 (fun _ => 10) appended gone back := by
  obtain ⟨e', appended, gone, back, hpass, houtcome⟩ :=
    schedulerPass_places_due fourDelayed 10 (fun _ => 10) (fun _ => 11) (by simp)
      fourDelayed_valid rfl rfl
  have hend : (fourDelayed.schedulerPass 10 (fun _ => 10) (fun _ => 11)).map
      (fun e => (e.buffer.contents, e.heap.inner)) = some (["first"], ["early", "second"]) := by
    decide +kernel
  rw [hpass, Option.map_some, Option.some_inj, Prod.mk.injEq] at hend
  exact ⟨e', hpass, hend.1, hend.2, appended, gone, back, houtcome⟩

end Engine
end TaskQueue
