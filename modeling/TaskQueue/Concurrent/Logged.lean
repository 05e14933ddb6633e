import Mathlib.Tactic
import TaskQueue.Concurrent.Holders

/-!
# Tasks whose `Submit` can no longer fail to keep them

`Submit` registers a task before it appends the `EntryEnqueue`, and takes the task back
when the `Append` fails.  Once the record is in the log the task stays registered, in
every run (`step_logged`).
-/

namespace TaskQueue

open Queue
open Wal (Log LogEnv LogRecord Snapshot)
open Engine (HandlerError SameTasks SameSubmissions submissionOf)

/-- The task of a `Submit` whose record is not in the log yet. -/
def CallPc.unlogged : CallPc → List TaskID
  | .registered task => [task.id]
  | .marshalled task _ => [task.id]
  | .undoing task => [task.id]
  | _ => []

theorem CallPc.unlogged_subset
    (pc : CallPc) :
    pc.unlogged ⊆ pc.holds := by
  cases pc <;> simp [CallPc.unlogged, CallPc.holds]

namespace World

variable {n m : Nat}

/-- The task is registered and its `EntryEnqueue` has been written. -/
def Logged (s : World n m) (id : TaskID) : Prop :=
  (s.engine.tasks.get id).isSome = true ∧ ∀ c, id ∉ (s.calls c).unlogged

variable {s s' : World n m}

/-- A task that somebody holds, other than a `Submit` before its record, is logged. -/
theorem Custody.logged
    (h : Custody s)
    {p : Place n m} {id : TaskID}
    (hid : id ∈ s.holdings p)
    (hp : ∀ c, p = .call c → id ∉ (s.calls c).unlogged) :
    s.Logged id := by
  refine ⟨h.registered hid, ?_⟩
  intro c hc
  exact hp c (h.exclusive.unique hid ((s.calls c).unlogged_subset hc)) hc

theorem logged_congr
    (htasks : SameTasks s.engine s'.engine)
    (hcalls : ∀ c, s'.calls c = s.calls c)
    {id : TaskID} :
    s'.Logged id ↔ s.Logged id := by
  unfold Logged
  rw [htasks.isSome]
  simp only [hcalls]

variable {c : Fin m} {env : LogEnv}

theorem CallStep.unlogged_subset
    (hstep : CallStep s c env s')
    (c' : Fin m) :
    (s'.calls c').unlogged ⊆ (s.calls c').unlogged := by
  by_cases hc : c' = c
  · subst hc
    cases hstep <;> simp_all [toCall, report, CallPc.unlogged]
  · rw [hstep.acted.calls c' (by simpa using Ne.symm hc)]
    exact List.Subset.refl _

/-- A client's step takes back no logged task. -/
theorem CallStep.logged_mono
    (hstep : CallStep s c env s')
    {id : TaskID}
    (hid : s.Logged id) :
    s'.Logged id := by
  refine ⟨?_, fun c' hc' => hid.2 c' (hstep.unlogged_subset c' hc')⟩
  cases hstep with
  | @undo task hpc =>
      have hne : id ≠ task.id := by
        rintro rfl
        exact hid.2 c (by simp [hpc, CallPc.unlogged])
      show ((s.engine.unregister task).tasks.get id).isSome = true
      rw [Engine.get_unregister, if_neg hne]
      exact hid.1
  | _ =>
      exact hid.1

/-- A client's step makes only the task logged whose record it appends. -/
theorem CallStep.logged_of
    (hstep : CallStep s c env s')
    {id : TaskID}
    (hid : s'.Logged id) :
    s.Logged id ∨ s'.calls c = .logged id := by
  obtain ⟨hreg, hnot⟩ := hid
  have hothers : ∀ c', c' ≠ c → id ∉ (s.calls c').unlogged := by
    intro c' hc
    rw [← hstep.acted.calls c' (by simpa using Ne.symm hc)]
    exact hnot c'
  have hall : id ∉ (s.calls c).unlogged → ∀ c', id ∉ (s.calls c').unlogged := by
    intro hown c'
    by_cases hc : c' = c
    · rw [hc]
      exact hown
    · exact hothers c' hc
  have hself := hnot c
  cases hstep with
  | @undo task hpc =>
      change ((s.engine.unregister task).tasks.get id).isSome = true at hreg
      rw [Engine.get_unregister] at hreg
      split_ifs at hreg with hid
      · cases hreg
      · exact Or.inl ⟨hreg, hall (by simp [hpc, CallPc.unlogged, hid])⟩
  | @logEnqueue task data hpc hok =>
      by_cases hid : id = task.id
      · right
        simp [toCall, hid]
      · exact Or.inl ⟨hreg, hall (by simp [hpc, CallPc.unlogged, hid])⟩
  | _ =>
      refine Or.inl ⟨hreg, hall ?_⟩
      clear hall hothers hnot
      simp_all only [toCall, report, Function.update_self, CallPc.unlogged, List.not_mem_nil,
        not_false_eq_true]

/-- A `Submit` returns nil for a task that it holds and has logged. -/
theorem CallStep.accepted_logged
    (hstep : CallStep s c env s')
    (h : Custody s)
    {id : TaskID}
    (hid : id ∈ s'.accepted) :
    id ∈ s.accepted ∨ s.Logged id := by
  cases hstep with
  | @push j hpc =>
      rcases List.mem_cons.mp hid with rfl | hold
      · right
        refine h.logged (p := .call c) (by simp [holdings, hpc, CallPc.holds]) ?_
        rintro c' ⟨⟩
        simp [hpc, CallPc.unlogged]
      · exact Or.inl hold
  | @enqueue j rb hpc henq =>
      rcases List.mem_cons.mp hid with rfl | hold
      · right
        refine h.logged (p := .call c) (by simp [holdings, hpc, CallPc.holds]) ?_
        rintro c' ⟨⟩
        simp [hpc, CallPc.unlogged]
      · exact Or.inl hold
  | _ =>
      exact Or.inl hid

/-- The first step of a `Submit` changes nothing about the logged tasks. -/
theorem submitStep_logged_iff
    {task : Task} {generatedID : TaskID} {now : Time}
    (h : Custody s)
    (hstep : s.submitStep c task generatedID now = some s')
    (id : TaskID) :
    s'.Logged id ↔ s.Logged id := by
  rcases submitStep_cases hstep with rfl | ⟨hpc, -, hfresh, rfl⟩
  · exact Iff.rfl
  · generalize s.engine.prepare task generatedID now = t at hfresh
    have hnone := (h.fresh hfresh).1
    have hacted : Acted (.call c) s ({ s with issued := t.id :: s.issued }.toCall c
        (.registered t) (s.engine.register t)) := acted_call rfl rfl rfl rfl
    have hother : ∀ c', c' ≠ c → ({ s with issued := t.id :: s.issued }.toCall c
        (.registered t) (s.engine.register t)).calls c' = s.calls c' := by
      intro c' hc
      exact hacted.calls c' (by simpa using Ne.symm hc)
    have hget := s.engine.get_register t id
    constructor
    · rintro ⟨hreg, hnot⟩
      have hne : id ≠ t.id := by
        rintro rfl
        exact hnot c (by simp [toCall, CallPc.unlogged])
      change ((s.engine.register t).tasks.get id).isSome = true at hreg
      rw [hget, if_neg hne] at hreg
      refine ⟨hreg, fun c' => ?_⟩
      by_cases hc : c' = c
      · subst hc
        simp [hpc, CallPc.unlogged]
      · rw [← hother c' hc]
        exact hnot c'
    · rintro ⟨hreg, hnot⟩
      have hne : id ≠ t.id := by
        rintro rfl
        rw [hnone] at hreg
        cases hreg
      refine ⟨?_, fun c' => ?_⟩
      · show ((s.engine.register t).tasks.get id).isSome = true
        rw [hget, if_neg hne]
        exact hreg
      · by_cases hc : c' = c
        · subst hc
          simp [toCall, CallPc.unlogged, hne]
        · rw [hother c' hc]
          exact hnot c'

/-- The first step of a `CancelTask` changes nothing about the logged tasks. -/
theorem cancelStep_logged_iff
    {id : TaskID} {now : Time}
    (hstep : s.cancelStep c id now = some s')
    (j : TaskID) :
    s'.Logged j ↔ s.Logged j := by
  rcases cancelStep_cases hstep with rfl | ⟨hpc, t, -, -, rfl⟩
  · exact Iff.rfl
  · have htasks : SameTasks s.engine (s.engine.updateTask id (Engine.cancelledAt now)) :=
      Engine.sameTasks_updateTask _ _ _ (fun _ => rfl)
    have hunlogged : ∀ c', ((s.toCall c (.cancelling id) (s.engine.updateTask id
        (Engine.cancelledAt now))).calls c').unlogged = (s.calls c').unlogged := by
      intro c'
      by_cases hc : c' = c
      · subst hc
        simp [toCall, hpc, CallPc.unlogged]
      · rw [s.acted_toCall.calls c' (by simpa using Ne.symm hc)]
    unfold Logged
    simp only [hunlogged]
    show ((s.engine.updateTask id (Engine.cancelledAt now)).tasks.get j).isSome = true ∧
      _ ↔ _
    rw [htasks.isSome]

theorem Unmoved.sameTasks
    (h : Unmoved s s') :
    SameTasks s.engine s'.engine := by
  intro j
  rw [h.tasks]

theorem Unmoved.logged_iff
    (h : Unmoved s s')
    {id : TaskID} :
    s'.Logged id ↔ s.Logged id :=
  logged_congr h.sameTasks (fun c => by rw [h.calls])

/-- A logged task stays registered as it was submitted. -/
theorem step_submission
    {e : Event n m} {id : TaskID} {t : Task}
    (h : Custody s)
    (hstep : s.step e = some s')
    (hid : s.Logged id)
    (ht : s.engine.tasks.get id = some t) :
    ∃ t', s'.engine.tasks.get id = some t' ∧ submissionOf t' = submissionOf t := by
  cases e with
  | worker w env result delay =>
      exact (workerStep_cases hstep).sameSubmissions.get_some ht
  | scheduler now =>
      exact (schedulerStep_cases hstep).sameSubmissions.get_some ht
  | submit c task generatedID now =>
      rcases submitStep_cases hstep with rfl | ⟨-, -, hfresh, rfl⟩
      · exact ⟨t, ht, rfl⟩
      · have hne : id ≠ (s.engine.prepare task generatedID now).id := by
          intro heq
          rw [heq, (h.fresh hfresh).1] at ht
          cases ht
        refine ⟨t, ?_, rfl⟩
        show (s.engine.register _).tasks.get id = some t
        rw [Engine.get_register, if_neg hne]
        exact ht
  | cancel c j now =>
      rcases cancelStep_cases hstep with rfl | ⟨-, t', -, -, rfl⟩
      · exact ⟨t, ht, rfl⟩
      · exact (Engine.sameSubmissions_updateTask s.engine j (Engine.cancelledAt now)
          (fun _ => rfl)).get_some ht
  | call c env =>
      cases callStep_cases hstep with
      | @undo task hpc =>
          have hne : id ≠ task.id := by
            rintro rfl
            exact hid.2 c (by simp [hpc, CallPc.unlogged])
          refine ⟨t, ?_, rfl⟩
          show (s.engine.unregister task).tasks.get id = some t
          rw [Engine.get_unregister, if_neg hne]
          exact ht
      | _ =>
          exact ⟨t, ht, rfl⟩
  | checkpoint order =>
      exact ⟨t, by rw [(checkpointStep_unmoved hstep).tasks]; exact ht, rfl⟩

/-- A logged task stays logged. -/
theorem step_logged
    {e : Event n m} {id : TaskID}
    (h : Custody s)
    (hstep : s.step e = some s')
    (hid : s.Logged id) :
    s'.Logged id := by
  cases e with
  | worker w env result delay =>
      have hwork := workerStep_cases hstep
      exact (logged_congr hwork.sameTasks
        (fun c => hwork.acted.calls c (by simp))).mpr hid
  | scheduler now =>
      have hsched := schedulerStep_cases hstep
      exact (logged_congr hsched.sameTasks
        (fun c => hsched.acted.calls c (by simp))).mpr hid
  | submit c task generatedID now =>
      exact (submitStep_logged_iff h hstep id).mpr hid
  | cancel c j now =>
      exact (cancelStep_logged_iff hstep id).mpr hid
  | call c env =>
      exact (callStep_cases hstep).logged_mono hid
  | checkpoint order =>
      exact (checkpointStep_unmoved hstep).logged_iff.mpr hid

end World
end TaskQueue
