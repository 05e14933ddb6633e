import TaskQueue.Engine.Requeue

/-!
# The order in which recovery queues the tasks

`rebuildQueues` visits the registry with a `range` over a Go map, whose order is arbitrary.
The registry and the tasks on the heap do not depend on it.  The ring buffer does: it takes
the pending and running tasks in the order of the visit, and under the reject policy that
order also decides which of them it takes at all (`recover_loaded`).

`recover_deterministic_iff` says for which directories the order makes no difference: those
with at most one such task, and those on which `Recover` blocks in any case.
-/

namespace TaskQueue

open Lib (GoMap)
open Queue

namespace Engine

/-- The same outcome: registry, sequence of the ring buffer, and tasks on the heap. -/
def SameRecovery : RecoverResult → RecoverResult → Prop
  | .ok e₁, .ok e₂ =>
      e₁.tasks = e₂.tasks ∧ e₁.buffer.contents = e₂.buffer.contents ∧
        e₁.heap.inner.Perm e₂.heap.inner
  | .replayFailed err₁, .replayFailed err₂ => err₁ = err₂
  | .blocked, .blocked => True
  | _, _ => False

/-- Any two orders of the iteration give the same outcome. -/
def Deterministic (cfg : Config) (d : Disk) : Prop :=
  ∀ order₁ order₂, enumeratesLoaded cfg d order₁ = true →
    enumeratesLoaded cfg d order₂ = true →
    SameRecovery (recover cfg d order₁) (recover cfg d order₂)

/-- The tasks of the `EntryEnqueue` records of the log, in order. -/
def enqueueOrder (d : Disk) : List TaskID :=
  d.walBin.filterMap fun r =>
    if r.entry.type = .enqueue then r.entry.data.task.map Task.id else none

/-- All tasks that recovery makes pending have an `EntryEnqueue` record in the log. -/
def FromLog (cfg : Config) (d : Disk) : Prop :=
  ∀ loaded last, loadTasks cfg d = .ok (loaded, last) →
    ∀ id, loaded.runnable id = true → id ∈ enqueueOrder d

/-- If all of them do, the buffer holds them in the order of these records. -/
def KeepsOrder (cfg : Config) (d : Disk) : Prop :=
  FromLog cfg d → ∀ order e, enumeratesLoaded cfg d order = true →
    recover cfg d order = .ok e → e.buffer.contents.Sublist (enqueueOrder d)

/-- The number of tasks of the registry that go to the ring buffer. -/
def runnableCount (e : Engine) : Nat :=
  (e.tasks.keys.filter fun id => e.runnable id = true).card

/-- At most one task goes to the buffer, or it blocks because they do not fit. -/
def OrderFree (cfg : Config) (d : Disk) : Prop :=
  ∀ loaded last, loadTasks cfg d = .ok (loaded, last) →
    loaded.runnableCount ≤ 1 ∨
      (cfg.overflowPolicy = .block ∧ cfg.capacity < loaded.runnableCount)

section RecoverOrder

variable {cfg : Config} {d : Disk} {loaded e : Engine} {last : Nat} {order : List TaskID}

theorem recover_of_waits
    (hload : loadTasks cfg d = .ok (loaded, last))
    (h : (loaded.openLog last).rebuildQueues order = none) :
    recover cfg d order = .blocked := by
  rw [recover, hload]
  simp only [h]

/-- A visit in the given order: `Recover` blocks, or takes what fits in this order. -/
theorem recover_loaded
    (hload : loadTasks cfg d = .ok (loaded, last))
    (horder : loaded.tasks.Enumerates order) :
    (cfg.overflowPolicy = .block ∧ cfg.capacity < loaded.runnableCount ∧
      recover cfg d order = .blocked) ∨
    (¬ (cfg.overflowPolicy = .block ∧ cfg.capacity < loaded.runnableCount) ∧
      ∃ e, recover cfg d order = .ok e ∧
        e.buffer.contents = (order.filter loaded.runnable).take cfg.capacity ∧
        e.heap.inner.Perm (order.filter loaded.delayed) ∧ Restarted loaded e) := by
  rw [runnableCount, runnable_card horder]
  rcases rebuildQueues_loaded hload horder.1 with
    ⟨hblock, hlt, hnone⟩ | ⟨hroom, e, hsome, hcontents⟩
  · exact Or.inl ⟨hblock, hlt, recover_of_waits hload hnone⟩
  · refine Or.inr ⟨?_, e, recover_of_rebuildQueues hload hsome, hcontents, ?_,
      rebuildQueues_restarted hload horder hsome⟩
    · rintro ⟨hblock, hlt⟩
      rcases hroom with hreject | hle
      · rw [hblock] at hreject
        cases hreject
      · omega
    · obtain ⟨-, -, -, hheap⟩ := queued_perm hload horder.1 hsome
      exact hheap

/-- The registry and the tasks on the heap do not depend on the order of the visit. -/
theorem recover_registry
    {order₁ order₂ : List TaskID} {e₁ e₂ : Engine}
    (henum₁ : enumeratesLoaded cfg d order₁ = true)
    (henum₂ : enumeratesLoaded cfg d order₂ = true)
    (h₁ : recover cfg d order₁ = .ok e₁)
    (h₂ : recover cfg d order₂ = .ok e₂) :
    e₁.tasks = e₂.tasks ∧ e₁.heap.inner.Perm e₂.heap.inner := by
  obtain ⟨loaded, last, hload, horder₁, -⟩ := Recovered.restarted ⟨h₁, henum₁⟩
  have horder₂ := enumerates_of_enumeratesLoaded henum₂ loaded last hload
  rcases recover_loaded hload horder₁ with ⟨-, -, hb⟩ | ⟨-, e, he, -, hheap₁, hres₁⟩
  · rw [hb] at h₁
    cases h₁
  rcases recover_loaded hload horder₂ with ⟨-, -, hb⟩ | ⟨-, e', he', -, hheap₂, hres₂⟩
  · rw [hb] at h₂
    cases h₂
  rw [h₁] at he
  rw [h₂] at he'
  cases he
  cases he'
  refine ⟨GoMap.ext fun id => ?_, ?_⟩
  · rw [hres₁.tasks, hres₂.tasks]
  · exact hheap₁.trans (((horder₁.perm horder₂).filter _).trans hheap₂.symm)

/-- With one task at most there is only one sequence. -/
theorem filter_eq_of_count
    {order₁ order₂ : List TaskID}
    (h₁ : loaded.tasks.Enumerates order₁)
    (h₂ : loaded.tasks.Enumerates order₂)
    (hone : loaded.runnableCount ≤ 1) :
    order₁.filter loaded.runnable = order₂.filter loaded.runnable := by
  have hperm := (h₁.perm h₂).filter loaded.runnable
  rw [runnableCount, runnable_card h₁] at hone
  cases hlist : order₁.filter loaded.runnable with
  | nil =>
      rw [hlist] at hperm
      exact hperm.nil_eq
  | cons a rest =>
      rw [hlist, List.length_cons] at hone
      have hrest : rest = [] := List.eq_nil_of_length_eq_zero (by omega)
      rw [hlist, hrest] at hperm
      rw [hrest]
      exact (List.singleton_perm.mp hperm)

theorem deterministic_of_orderFree
    (h : OrderFree cfg d) :
    Deterministic cfg d := by
  intro order₁ order₂ henum₁ henum₂
  cases hload : loadTasks cfg d with
  | error err =>
      have hrec : ∀ order, recover cfg d order = .replayFailed err := fun order => by
        rw [recover, hload]
      rw [hrec, hrec]
      rfl
  | ok r =>
      obtain ⟨loaded, last⟩ := r
      have horder₁ := enumerates_of_enumeratesLoaded henum₁ loaded last hload
      have horder₂ := enumerates_of_enumeratesLoaded henum₂ loaded last hload
      rcases recover_loaded hload horder₁ with ⟨hb, hlt, hrec₁⟩ | ⟨hroom, e₁, hrec₁, hc₁, -⟩
      · rcases recover_loaded hload horder₂ with ⟨-, -, hrec₂⟩ | ⟨hroom, -⟩
        · rw [hrec₁, hrec₂]
          trivial
        · exact absurd ⟨hb, hlt⟩ hroom
      · rcases recover_loaded hload horder₂ with ⟨hb, hlt, -⟩ | ⟨-, e₂, hrec₂, hc₂, -⟩
        · exact absurd ⟨hb, hlt⟩ hroom
        · obtain ⟨htasks, hheap⟩ := recover_registry henum₁ henum₂ hrec₁ hrec₂
          rw [hrec₁, hrec₂]
          refine ⟨htasks, ?_, hheap⟩
          have hone := (h loaded last hload).resolve_right hroom
          rw [hc₁, hc₂, filter_eq_of_count horder₁ horder₂ hone]

theorem keepsOrder_of_orderFree
    (h : OrderFree cfg d) :
    KeepsOrder cfg d := by
  intro hfrom order e henum hrec
  obtain ⟨loaded, last, hload, horder, -⟩ := Recovered.restarted ⟨hrec, henum⟩
  rcases recover_loaded hload horder with ⟨-, -, hb⟩ | ⟨hroom, e', he', hcontents, -⟩
  · rw [hb] at hrec
    cases hrec
  rw [hrec] at he'
  cases he'
  have hone := (h loaded last hload).resolve_right hroom
  rw [runnableCount, runnable_card horder] at hone
  rw [hcontents]
  refine (List.take_sublist _ _).trans ?_
  cases hlist : order.filter loaded.runnable with
  | nil =>
      exact List.nil_sublist _
  | cons a rest =>
      rw [hlist, List.length_cons] at hone
      have hrest : rest = [] := List.eq_nil_of_length_eq_zero (by omega)
      have ha : a ∈ order.filter loaded.runnable := by
        rw [hlist]
        exact List.mem_cons_self
      rw [hrest, List.singleton_sublist]
      exact hfrom loaded last hload a (List.mem_filter.mp ha).2

theorem orderFree_of_deterministic
    (h : Deterministic cfg d) :
    OrderFree cfg d := by
  intro loaded last hload
  by_contra hnot
  rw [not_or] at hnot
  obtain ⟨htwo, hroom⟩ := hnot
  -- two tasks that go to the buffer, and a visit that starts with each of them
  obtain ⟨a, ha, b, hb, hab⟩ := Finset.one_lt_card.mp (Nat.lt_of_not_le htwo)
  rw [Finset.mem_filter, GoMap.mem_keys] at ha hb
  obtain ⟨rest₁, horder₁⟩ := GoMap.exists_enumerates_cons ha.1
  obtain ⟨rest₂, horder₂⟩ := GoMap.exists_enumerates_cons hb.1
  have henum : ∀ order, loaded.tasks.Enumerates order →
      enumeratesLoaded cfg d order = true := fun order horder => by
    simpa [enumeratesLoaded, hload] using horder
  rcases recover_loaded hload horder₁ with ⟨hbl, hlt, -⟩ | ⟨-, e₁, hrec₁, hc₁, -⟩
  · exact hroom ⟨hbl, hlt⟩
  rcases recover_loaded hload horder₂ with ⟨hbl, hlt, -⟩ | ⟨-, e₂, hrec₂, hc₂, -⟩
  · exact hroom ⟨hbl, hlt⟩
  have hsame := h _ _ (henum _ horder₁) (henum _ horder₂)
  rw [hrec₁, hrec₂] at hsame
  obtain ⟨-, hcontents, -⟩ := hsame
  obtain ⟨n, hn⟩ := Nat.exists_eq_succ_of_ne_zero (Nat.ne_of_gt cfg.capacity_pos)
  rw [hc₁, hc₂, List.filter_cons_of_pos ha.2, List.filter_cons_of_pos hb.2, hn,
    List.take_succ_cons, List.take_succ_cons] at hcontents
  exact hab (List.cons.inj hcontents).1

end RecoverOrder

/--
Recovery of a directory, over all orders in which the registry may be visited.  The registry
and the tasks on the heap are always the same.  The whole outcome is the same, and the
buffer in the order of the log, if and only if at most one task goes to the buffer or
`Recover` blocks anyway.
-/
theorem recover_deterministic_iff
    (cfg : Config) (d : Disk) :
    (∀ order₁ order₂ e₁ e₂, enumeratesLoaded cfg d order₁ = true →
      enumeratesLoaded cfg d order₂ = true →
      recover cfg d order₁ = .ok e₁ → recover cfg d order₂ = .ok e₂ →
      e₁.tasks = e₂.tasks ∧ e₁.heap.inner.Perm e₂.heap.inner) ∧
    ((Deterministic cfg d ∧ KeepsOrder cfg d) ↔ OrderFree cfg d) := by
  refine ⟨fun _ _ _ _ => recover_registry, ?_, ?_⟩
  · rintro ⟨hdet, -⟩
    exact orderFree_of_deterministic hdet
  · intro h
    exact ⟨deterministic_of_orderFree h, keepsOrder_of_orderFree h⟩

/-- A log with two pending tasks. -/
def twoPendingDisk : Disk where
  snapshot := none
  walBin :=
    [⟨⟨1, .enqueue, "a", 10, .ofTask { Task.zero with id := "a" }⟩, 300⟩,
      ⟨⟨2, .enqueue, "b", 20, .ofTask { Task.zero with id := "b" }⟩, 300⟩]
  walOld := []

/-- The second task of the log stands before the first in the buffer. -/
theorem recovery_reorders :
    enqueueOrder twoPendingDisk = ["a", "b"] ∧
    (∃ e, Recovered System.roomyConfig twoPendingDisk ["a", "b"] e ∧
      e.buffer.contents = ["a", "b"]) ∧
    (∃ e, Recovered System.roomyConfig twoPendingDisk ["b", "a"] e ∧
      e.buffer.contents = ["b", "a"]) :=
  ⟨by decide +kernel, recovered_of_recoversTo (by decide +kernel),
    recovered_of_recoversTo (by decide +kernel)⟩

end Engine
end TaskQueue
