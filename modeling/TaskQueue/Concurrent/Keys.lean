import Mathlib.Tactic
import TaskQueue.Concurrent.Logged

/-!
# Idempotency keys

`Submit` enters the key of a task with the task itself and takes both back in one locked
block, so that registry and keys agree in every interleaving (`keys_agree`): no key is
given to two tasks that are accepted, and a duplicate finds the task that has its key.
The key is visible before the record is in the log, though: a `Submit` that is told
`ErrDuplicateIdempotencyKey` meanwhile may find that no task has the key in the end
(`duplicate_taken_back`).  `duplicate_stands_iff` says when the answer stands.
-/

namespace TaskQueue

open Queue
open Wal (Log LogEnv LogRecord Snapshot)
open Engine (HandlerError SameTasks SameSubmissions submissionOf)

namespace Engine

/-- The registry and the idempotency keys agree. -/
structure KeysAgree (e : Engine) : Prop where
  carried : ∀ key id, e.idempKeys.get key = some id →
    key ≠ "" ∧ ∃ t, e.tasks.get id = some t ∧ t.idempotencyKey = key
  mapped : ∀ id t, e.tasks.get id = some t → t.idempotencyKey ≠ "" →
    e.idempKeys.get t.idempotencyKey = some id

/-- Changes to tasks do not touch their keys. -/
theorem KeysAgree.same
    {e e' : Engine}
    (h : KeysAgree e)
    (htasks : SameSubmissions e e')
    (hkeys : e'.idempKeys = e.idempKeys) :
    KeysAgree e' := by
  refine ⟨?_, ?_⟩
  · intro key id hid
    rw [hkeys] at hid
    obtain ⟨hne, t, ht, hkey⟩ := h.carried key id hid
    obtain ⟨t', ht', hsub⟩ := htasks.get_some ht
    exact ⟨hne, t', ht', (congrArg Submission.idempotencyKey hsub).trans hkey⟩
  · intro id t' ht' hne
    obtain ⟨t, ht, hsub⟩ := htasks.symm.get_some ht'
    have hkey : t.idempotencyKey = t'.idempotencyKey :=
      congrArg Submission.idempotencyKey hsub
    rw [hkeys, ← hkey]
    exact h.mapped id t ht (hkey ▸ hne)

/-- A new task with a key that is not in use. -/
theorem KeysAgree.register
    {e : Engine} {t : Task}
    (h : KeysAgree e)
    (hfresh : e.tasks.get t.id = none)
    (hkey : t.idempotencyKey ≠ "" → e.idempKeys.get t.idempotencyKey = none) :
    KeysAgree (e.register t) := by
  refine ⟨?_, ?_⟩
  · intro key id hid
    rw [idempKeys_register] at hid
    rw [get_register]
    split_ifs at hid with hself
    · cases hid
      exact ⟨hself.2 ▸ hself.1, t, if_pos rfl, hself.2.symm⟩
    · obtain ⟨hne, t', ht', hkey'⟩ := h.carried key id hid
      have hid' : id ≠ t.id := by
        rintro rfl
        rw [hfresh] at ht'
        cases ht'
      rw [if_neg hid']
      exact ⟨hne, t', ht', hkey'⟩
  · intro id t' ht' hne
    rw [get_register] at ht'
    rw [idempKeys_register]
    split_ifs at ht' with hid
    · cases ht'
      rw [if_pos ⟨hne, rfl⟩, hid]
    · have hold := h.mapped id t' ht' hne
      rw [if_neg]
      · exact hold
      · rintro ⟨hne', hsame⟩
        rw [hsame, hkey hne'] at hold
        cases hold

/-- A task that has its key is taken back with it. -/
theorem KeysAgree.unregister
    {e : Engine} {task t : Task}
    (h : KeysAgree e)
    (hget : e.tasks.get task.id = some t)
    (hkey : t.idempotencyKey = task.idempotencyKey) :
    KeysAgree (e.unregister task) := by
  have hown : task.idempotencyKey ≠ "" →
      e.idempKeys.get task.idempotencyKey = some task.id := by
    intro hne
    rw [← hkey] at hne ⊢
    exact h.mapped task.id t hget hne
  refine ⟨?_, ?_⟩
  · intro key id hid
    rw [idempKeys_unregister] at hid
    split_ifs at hid with hdeleted
    obtain ⟨hne, t', ht', hkey'⟩ := h.carried key id hid
    have hid' : id ≠ task.id := by
      rintro rfl
      rw [hget] at ht'
      cases ht'
      exact hdeleted ⟨hkey ▸ hkey' ▸ hne, hkey'.symm.trans hkey⟩
    rw [get_unregister, if_neg hid']
    exact ⟨hne, t', ht', hkey'⟩
  · intro id t' ht' hne
    rw [get_unregister] at ht'
    split_ifs at ht' with hid
    have hold := h.mapped id t' ht' hne
    rw [idempKeys_unregister, if_neg]
    · exact hold
    · rintro ⟨hne', hsame⟩
      rw [hsame, hown hne'] at hold
      exact hid (Option.some.inj hold).symm

/-- The task that a duplicate is told about. -/
theorem KeysAgree.duplicate
    {e : Engine} {task : Task} {id : TaskID}
    (h : KeysAgree e)
    (hdup : e.duplicateOf task = some id) :
    ∃ t, e.tasks.get id = some t ∧ t.idempotencyKey = task.idempotencyKey := by
  unfold duplicateOf at hdup
  split_ifs at hdup
  exact (h.carried _ _ hdup).2

theorem keysAgree_new
    (cfg : Config) :
    KeysAgree (new cfg) := by
  refine ⟨?_, ?_⟩
  · intro key id hid
    rw [show (new cfg).idempKeys.get key = none from Lib.GoMap.get_empty key] at hid
    cases hid
  · intro id t ht
    rw [show (new cfg).tasks.get id = none from Lib.GoMap.get_empty id] at ht
    cases ht

end Engine

/-- The task of a `Submit` that may still take it back. -/
def CallPc.entering : CallPc → Option Task
  | .registered task => some task
  | .marshalled task _ => some task
  | .undoing task => some task
  | _ => none

theorem CallPc.unlogged_eq
    (pc : CallPc) :
    pc.unlogged = (pc.entering.map Task.id).toList := by
  cases pc <;> rfl

namespace World

variable {n m : Nat} {s s' : World n m}

/-- The invariant: what a `Submit` may take back has the key that goes with it. -/
structure Keyed (s : World n m) : Prop where
  custody : Custody s
  agree : Engine.KeysAgree s.engine
  entering : ∀ c task, (s.calls c).entering = some task →
    ∃ t, s.engine.tasks.get task.id = some t ∧ t.idempotencyKey = task.idempotencyKey
  once : s.accepted.Nodup
  accepted : ∀ id ∈ s.accepted, s.Logged id ∧ ∀ c, id ∉ (s.calls c).holds

/-- A step that registers no task, takes none back and accepts none. -/
theorem Keyed.quiet
    (h : Keyed s)
    (hcustody : Custody s')
    (htasks : SameSubmissions s.engine s'.engine)
    (hkeys : s'.engine.idempKeys = s.engine.idempKeys)
    (hentering : ∀ c task, (s'.calls c).entering = some task →
      ∃ c₀, (s.calls c₀).entering = some task)
    (hlogged : ∀ id, s.Logged id → s'.Logged id)
    (hholds : ∀ c, (s'.calls c).holds ⊆ (s.calls c).holds)
    (haccepted : s'.accepted = s.accepted) :
    Keyed s' := by
  refine ⟨hcustody, h.agree.same htasks hkeys, ?_, ?_, ?_⟩
  · intro c task hc
    obtain ⟨c₀, hc₀⟩ := hentering c task hc
    obtain ⟨t, ht, hkey⟩ := h.entering c₀ task hc₀
    obtain ⟨t', ht', hsub⟩ := htasks.get_some ht
    exact ⟨t', ht', (congrArg Engine.Submission.idempotencyKey hsub).trans hkey⟩
  · rw [haccepted]
    exact h.once
  · intro id hid
    rw [haccepted] at hid
    obtain ⟨hlog, hfree⟩ := h.accepted id hid
    exact ⟨hlogged id hlog, fun c hc => hfree c (hholds c hc)⟩

/-- A step of another thread than the clients. -/
theorem Keyed.aside
    {e : Event n m}
    (h : Keyed s)
    (hstep : s.step e = some s')
    (htasks : SameSubmissions s.engine s'.engine)
    (hkeys : s'.engine.idempKeys = s.engine.idempKeys)
    (hcalls : ∀ c, s'.calls c = s.calls c)
    (haccepted : s'.accepted = s.accepted) :
    Keyed s' := by
  refine h.quiet (step_custody h.custody hstep) htasks hkeys ?_
    (fun id => step_logged h.custody hstep) ?_ haccepted
  · intro c task hc
    rw [hcalls] at hc
    exact ⟨c, hc⟩
  · intro c
    rw [hcalls]
    exact List.Subset.refl _

theorem WorkerStep.idempKeys
    {w : Fin n} {env : LogEnv}
    (h : WorkerStep s w env s') :
    s'.engine.idempKeys = s.engine.idempKeys := by
  cases h with
  | @write id result hpc =>
      cases result <;> rfl
  | _ =>
      rfl

theorem SchedulerStep.idempKeys
    {now : Time}
    (h : SchedulerStep s now s') :
    s'.engine.idempKeys = s.engine.idempKeys := by
  cases h <;> rfl

theorem checkpointStep_idempKeys
    {order : List TaskID}
    (h : s.checkpointStep order = some s') :
    s'.engine.idempKeys = s.engine.idempKeys := by
  unfold checkpointStep at h
  cases hpc : s.checkpointer with
  | idle =>
      simp only [hpc] at h
      split_ifs at h
      cases h
      rfl
  | _ =>
      simp only [hpc, Option.some.injEq] at h
      subst h
      rfl

section Call

variable {c : Fin m} {env : LogEnv}

/-- A failed `Submit` takes its task and its key back. -/
theorem undo_keyed
    {task : Task}
    (h : Keyed s)
    (hpc : s.calls c = .undoing task) :
    Keyed (s.toCall c .idle (s.engine.unregister task)) := by
  have hstep : CallStep s c (.noError 0 0)
      (s.toCall c .idle (s.engine.unregister task)) := .undo hpc
  obtain ⟨t, ht, hkey⟩ := h.entering c task (by rw [hpc]; rfl)
  have hheld : task.id ∈ s.holdings (.call c) := by
    simp [holdings, hpc, CallPc.holds]
  have hother : ∀ c', c' ≠ c →
      (s.toCall c .idle (s.engine.unregister task)).calls c' = s.calls c' := fun c' hc =>
    hstep.acted.calls c' (by simpa using Ne.symm hc)
  refine ⟨callStep_custody h.custody hstep, h.agree.unregister ht hkey, ?_, h.once, ?_⟩
  · intro c' task' hc'
    by_cases hc : c' = c
    · subst hc
      simp [toCall, CallPc.entering] at hc'
    · rw [hother c' hc] at hc'
      have hheld' : task'.id ∈ s.holdings (.call c') := by
        refine (s.calls c').unlogged_subset ?_
        rw [CallPc.unlogged_eq, hc']
        exact List.mem_singleton_self _
      have hne : task'.id ≠ task.id := by
        intro heq
        rw [heq] at hheld'
        have hplace := h.custody.exclusive.unique hheld' hheld
        exact hc (by simpa using hplace)
      obtain ⟨t', ht', hkey'⟩ := h.entering c' task' hc'
      refine ⟨t', ?_, hkey'⟩
      show (s.engine.unregister task).tasks.get task'.id = some t'
      rw [Engine.get_unregister, if_neg hne]
      exact ht'
  · intro id hid
    obtain ⟨hlog, hfree⟩ := h.accepted id hid
    refine ⟨hstep.logged_mono hlog, fun c' hc' => ?_⟩
    by_cases hc : c' = c
    · subst hc
      simp [toCall, CallPc.holds] at hc'
    · rw [hother c' hc] at hc'
      exact hfree c' hc'

/-- `Submit` returns nil. -/
theorem accept_keyed
    {id : TaskID}
    (h : Keyed s)
    (hstep : CallStep s c env s')
    (hid : id ∈ (s.calls c).holds)
    (hnot : id ∉ (s.calls c).unlogged)
    (hpc' : s'.calls c = .idle)
    (htasks : s'.engine.tasks = s.engine.tasks)
    (hkeys : s'.engine.idempKeys = s.engine.idempKeys)
    (haccepted : s'.accepted = id :: s.accepted) :
    Keyed s' := by
  have hother : ∀ c', c' ≠ c → s'.calls c' = s.calls c' := fun c' hc =>
    hstep.acted.calls c' (by simpa using Ne.symm hc)
  have hlogged : s.Logged id := by
    refine h.custody.logged (p := .call c) hid ?_
    rintro c' ⟨⟩
    exact hnot
  refine ⟨callStep_custody h.custody hstep, ?_, ?_, ?_, ?_⟩
  · refine h.agree.same ?_ hkeys
    intro j
    rw [htasks]
  · intro c' task hc'
    by_cases hc : c' = c
    · subst hc
      rw [hpc'] at hc'
      cases hc'
    · rw [hother c' hc] at hc'
      rw [htasks]
      exact h.entering c' task hc'
  · rw [haccepted]
    exact List.nodup_cons.mpr ⟨fun hold => (h.accepted id hold).2 c hid, h.once⟩
  · intro j hj
    rw [haccepted] at hj
    rcases List.mem_cons.mp hj with rfl | hold
    · refine ⟨hstep.logged_mono hlogged, fun c' hc' => ?_⟩
      by_cases hc : c' = c
      · subst hc
        rw [hpc'] at hc'
        cases hc'
      · rw [hother c' hc] at hc'
        have hplace := h.custody.exclusive.unique (p := .call c') (q := .call c) hc' hid
        exact hc (by simpa using hplace)
    · obtain ⟨hlog, hfree⟩ := h.accepted j hold
      refine ⟨hstep.logged_mono hlog, fun c' hc' => ?_⟩
      by_cases hc : c' = c
      · subst hc
        rw [hpc'] at hc'
        cases hc'
      · rw [hother c' hc] at hc'
        exact hfree c' hc'

/-- A client that has registered its task goes on with this task only. -/
theorem CallStep.entering_of
    (hstep : CallStep s c env s')
    {c' : Fin m} {task : Task}
    (hc' : (s'.calls c').entering = some task) :
    (s.calls c').entering = some task := by
  by_cases hc : c' = c
  · subst hc
    cases hstep <;> simp_all [toCall, report, CallPc.entering]
  · rw [← hstep.acted.calls c' (by simpa using Ne.symm hc)]
    exact hc'

theorem CallStep.holds_subset
    (hstep : CallStep s c env s')
    (c' : Fin m) :
    (s'.calls c').holds ⊆ (s.calls c').holds := by
  by_cases hc : c' = c
  · subst hc
    cases hstep <;> simp_all [toCall, report, CallPc.holds]
  · rw [hstep.acted.calls c' (by simpa using Ne.symm hc)]
    exact List.Subset.refl _

theorem callStep_keyed
    (h : Keyed s)
    (hstep : CallStep s c env s') :
    Keyed s' := by
  have hcall := hstep
  have hquiet := fun htasks hkeys haccepted =>
    h.quiet (callStep_custody h.custody hstep) htasks hkeys
      (fun c' _ hc' => ⟨c', hstep.entering_of hc'⟩) (fun _ => hstep.logged_mono)
      hstep.holds_subset haccepted
  cases hstep with
  | @undo task hpc =>
      exact undo_keyed h hpc
  | @push id hpc =>
      refine accept_keyed h hcall ?_ ?_ ?_ rfl rfl rfl
      · simp [hpc, CallPc.holds]
      · simp [hpc, CallPc.unlogged]
      · simp [toCall]
  | @enqueue id rb hpc henq =>
      refine accept_keyed h hcall ?_ ?_ ?_ rfl rfl rfl
      · simp [hpc, CallPc.holds]
      · simp [hpc, CallPc.unlogged]
      · simp [toCall]
  | _ =>
      exact hquiet (SameSubmissions.refl _) rfl rfl

/-- A new task is registered with its key, which no task had. -/
theorem submitStep_keyed
    {task : Task} {generatedID : TaskID} {now : Time}
    (h : Keyed s)
    (hstep : s.submitStep c task generatedID now = some s') :
    Keyed s' := by
  have hcustody := submitStep_custody h.custody hstep
  have hlogged := submitStep_logged_iff h.custody hstep
  rcases submitStep_cases hstep with rfl | ⟨hpc, hdup, hid, rfl⟩
  · exact h
  · have hkey : (s.engine.prepare task generatedID now).idempotencyKey ≠ "" →
        s.engine.idempKeys.get (s.engine.prepare task generatedID now).idempotencyKey =
          none := by
      intro hne
      rw [Engine.prepare_idempotencyKey] at hne ⊢
      rw [Engine.duplicateOf, if_neg hne] at hdup
      exact hdup
    generalize s.engine.prepare task generatedID now = t at hid hkey hcustody hlogged
    obtain ⟨hnone, hfree⟩ := h.custody.fresh hid
    have hother : ∀ c', c' ≠ c → ({ s with issued := t.id :: s.issued }.toCall c
        (.registered t) (s.engine.register t)).calls c' = s.calls c' := by
      intro c' hc
      exact Function.update_of_ne hc _ _
    refine ⟨hcustody, h.agree.register hnone hkey, ?_, h.once, ?_⟩
    · intro c' task' hc'
      show ∃ t', (s.engine.register t).tasks.get task'.id = some t' ∧ _
      rw [Engine.get_register]
      by_cases hc : c' = c
      · subst hc
        simp only [toCall, Function.update_self, CallPc.entering, Option.some.injEq] at hc'
        subst hc'
        exact ⟨t, if_pos rfl, rfl⟩
      · rw [hother c' hc] at hc'
        obtain ⟨t', ht', hkey'⟩ := h.entering c' task' hc'
        have hne : task'.id ≠ t.id := by
          intro heq
          rw [heq, hnone] at ht'
          cases ht'
        exact ⟨t', by rw [if_neg hne]; exact ht', hkey'⟩
    · intro id haccepted
      obtain ⟨hlog, hnot⟩ := h.accepted id haccepted
      refine ⟨(hlogged id).mpr hlog, fun c' hc' => ?_⟩
      by_cases hc : c' = c
      · subst hc
        simp only [toCall, Function.update_self, CallPc.holds, List.mem_singleton] at hc'
        rw [hc'] at hlog
        have hreg := hlog.1
        rw [hnone] at hreg
        cases hreg
      · rw [hother c' hc] at hc'
        exact hnot c' hc'

theorem cancelStep_keyed
    {id : TaskID} {now : Time}
    (h : Keyed s)
    (hstep : s.cancelStep c id now = some s') :
    Keyed s' := by
  have hcustody := cancelStep_custody h.custody hstep
  have hlogged := cancelStep_logged_iff hstep
  rcases cancelStep_cases hstep with rfl | ⟨hpc, t, -, -, rfl⟩
  · exact h
  · have hother : ∀ c', c' ≠ c → (s.toCall c (.cancelling id) (s.engine.updateTask id
        (Engine.cancelledAt now))).calls c' = s.calls c' := by
      intro c' hc
      exact Function.update_of_ne hc _ _
    refine h.quiet hcustody (Engine.sameSubmissions_updateTask _ _ _ (fun _ => rfl)) rfl ?_
      (fun j => (hlogged j).mpr) ?_ rfl
    · intro c' task hc'
      by_cases hc : c' = c
      · subst hc
        simp [toCall, CallPc.entering] at hc'
      · rw [hother c' hc] at hc'
        exact ⟨c', hc'⟩
    · intro c'
      by_cases hc : c' = c
      · subst hc
        simp [toCall, CallPc.holds]
      · rw [hother c' hc]
        exact List.Subset.refl _

end Call

/-- Every step keeps registry and keys together. -/
theorem step_keyed
    (s : World n m) (e : Event n m) (s' : World n m)
    (h : Keyed s)
    (_ : True)
    (hstep : s.step e = some s') :
    Keyed s' := by
  cases e with
  | worker w env result delay =>
      have hwork := workerStep_cases hstep
      exact h.aside hstep hwork.sameSubmissions hwork.idempKeys
        (fun c => hwork.acted.calls c (by simp)) hwork.history.2.1
  | scheduler now =>
      have hsched := schedulerStep_cases hstep
      exact h.aside hstep hsched.sameSubmissions hsched.idempKeys
        (fun c => hsched.acted.calls c (by simp)) hsched.history.2.1
  | submit c task generatedID now =>
      exact submitStep_keyed h hstep
  | cancel c id now =>
      exact cancelStep_keyed h hstep
  | call c env =>
      exact callStep_keyed h (callStep_cases hstep)
  | checkpoint order =>
      have hsame := checkpointStep_unmoved hstep
      refine h.aside hstep ?_ (checkpointStep_idempKeys hstep)
        (fun c => by rw [hsame.calls]) hsame.accepted
      intro j
      rw [hsame.tasks]

theorem initial_keyed
    (cfg : Engine.Config) :
    Keyed (initial cfg : World n m) := by
  refine ⟨start_custody (recovered_initial cfg),
    (Engine.keysAgree_new cfg).same (fun _ => rfl) rfl, ?_, List.nodup_nil, ?_⟩
  · intro c task hc
    cases hc
  · intro id hid
    cases hid

/--
In every state of every interleaving, with any outcome of the appends and the enqueues,
registry and keys agree; all tasks whose `Submit` returned nil are registered, no two of
them with the same key; and a duplicate is told about a task that is there and has its
key.
-/
theorem keys_agree
    (cfg : Engine.Config) (es : List (Event n m)) (s : World n m)
    (hrun : Lib.Run step (fun _ _ => True) (initial cfg) es s) :
    Engine.KeysAgree s.engine ∧
    (s.accepted.Nodup ∧ ∀ id ∈ s.accepted, ∃ t, s.engine.tasks.get id = some t ∧
      ∀ id' ∈ s.accepted, ∀ t', s.engine.tasks.get id' = some t' →
        t.idempotencyKey ≠ "" → t'.idempotencyKey = t.idempotencyKey → id' = id) ∧
    ∀ task id, s.engine.duplicateOf task = some id →
      ∃ t, s.engine.tasks.get id = some t ∧ t.idempotencyKey = task.idempotencyKey := by
  have h := hrun.invariant Keyed step_keyed (initial_keyed cfg)
  refine ⟨h.agree, ⟨h.once, ?_⟩, fun task id => h.agree.duplicate⟩
  intro id hid
  obtain ⟨t, ht⟩ := Option.isSome_iff_exists.mp (h.accepted id hid).1.1
  refine ⟨t, ht, ?_⟩
  intro id' _ t' ht' hne hsame
  have hmine := h.agree.mapped id t ht hne
  have hother := h.agree.mapped id' t' ht' (hsame ▸ hne)
  rw [hsame, hmine] at hother
  exact (Option.some.inj hother).symm

/-- A task with a key. -/
def keyed : Task :=
  { Task.zero with idempotencyKey := "k" }

/-- Two clients submit the same key at once. -/
def sameKeyTwice : List (Event 1 2) :=
  .submit 0 keyed "a" 10 :: .submit 1 keyed "b" 10 ::
    List.replicate 4 (.call 0 (.noError 10 300))

theorem keys_agree_sameKeyTwice :
    ∃ s : World 1 2,
      Lib.Run step (fun _ _ => True) (initial System.roomyConfig) sameKeyTwice s ∧
      s.accepted = ["a"] ∧
      Engine.KeysAgree s.engine ∧
      (s.accepted.Nodup ∧ ∀ id ∈ s.accepted, ∃ t, s.engine.tasks.get id = some t ∧
        ∀ id' ∈ s.accepted, ∀ t', s.engine.tasks.get id' = some t' →
          t.idempotencyKey ≠ "" → t'.idempotencyKey = t.idempotencyKey → id' = id) ∧
      ∀ task id, s.engine.duplicateOf task = some id →
        ∃ t, s.engine.tasks.get id = some t ∧ t.idempotencyKey = task.idempotencyKey := by
  obtain ⟨s, hrun, haccepted⟩ :=
    Lib.exists_run_of_exec step (fun _ _ => True)
      (fun s : World 1 2 => s.accepted = ["a"])
      (initial System.roomyConfig) sameKeyTwice (by decide +kernel)
  exact ⟨s, hrun, haccepted, keys_agree System.roomyConfig sameKeyTwice s hrun⟩

/-- A task that has the key of the given one is registered. -/
def HasKeyOf (s : World n m) (task : Task) : Prop :=
  ∃ id t, s.engine.tasks.get id = some t ∧ t.idempotencyKey = task.idempotencyKey

/-- From now on some task has the key of the one that was refused as a duplicate. -/
def DuplicateStands (s : World n m) (task : Task) : Prop :=
  ∀ es s', Lib.Run step (fun _ _ => True) s es s' → s'.HasKeyOf task

/-- A task that is in the log keeps its key. -/
theorem duplicateStands_of_logged
    {task : Task} {id : TaskID}
    (h : Keyed s)
    (hdup : s.engine.duplicateOf task = some id)
    (hlogged : s.Logged id) :
    s.DuplicateStands task := by
  intro es s' hrun
  let Inv : World n m → Prop := fun u =>
    Custody u ∧ u.Logged id ∧
      ∃ t, u.engine.tasks.get id = some t ∧ t.idempotencyKey = task.idempotencyKey
  have hinv : Inv s' := by
    refine hrun.invariant Inv ?_ ⟨h.custody, hlogged, h.agree.duplicate hdup⟩
    rintro u e u' ⟨hcustody, hlog, t, ht, hkey⟩ - hstep
    obtain ⟨t', ht', hsub⟩ := step_submission hcustody hstep hlog ht
    exact ⟨step_custody hcustody hstep, step_logged hcustody hstep hlog, t', ht',
      (congrArg Engine.Submission.idempotencyKey hsub).trans hkey⟩
  exact ⟨id, hinv.2.2⟩

/-- An `Append` whose writer fails. -/
def failingAppend : LogEnv :=
  .diskFull 0 0

theorem append_failing
    (e : Engine) (d : Engine.Disk) (type : Wal.EntryType) (id : TaskID)
    (data : Engine.EntryData) :
    (e.append d type id data failingAppend).2.2 = false := by
  unfold Engine.append Log.append failingAppend
  split_ifs <;> rfl

/-- The engine of a client that has taken its task back. -/
def TakenBack (s : World n m) (task : Task) (s' : World n m) : Prop :=
  s'.engine.tasks = (s.engine.unregister task).tasks ∧
    s'.engine.idempKeys = (s.engine.unregister task).idempKeys

/-- A client before its record may still take its task back. -/
theorem exists_takenBack
    {c : Fin m} {task : Task}
    (hc : (s.calls c).entering = some task) :
    ∃ es s', Lib.Run step (fun _ _ => True) s es s' ∧ TakenBack s task s' := by
  -- from each program counter, what is left to do
  have hundo : ∀ u : World n m, u.calls c = .undoing task →
      ∃ s', Lib.Run step (fun _ _ => True) u [.call c failingAppend] s' ∧
        TakenBack u task s' := by
    intro u hu
    refine ⟨u.toCall c .idle (u.engine.unregister task), ?_, rfl, rfl⟩
    refine .cons trivial ?_ (.nil _)
    simp only [step, callStep, hu]
  have hfail : ∀ (u : World n m) data, u.calls c = .marshalled task data →
      ∃ s', Lib.Run step (fun _ _ => True) u
          [.call c failingAppend, .call c failingAppend] s' ∧ TakenBack u task s' := by
    intro u data hu
    have hnot := append_failing u.engine u.disk .enqueue task.id (.ofTask data)
    obtain ⟨s', hrun, hback⟩ := hundo ({ u with
      disk := (u.engine.append u.disk .enqueue task.id (.ofTask data) failingAppend).2.1
      }.toCall c (.undoing task)
      (u.engine.append u.disk .enqueue task.id (.ofTask data) failingAppend).1)
      (by simp [toCall])
    refine ⟨s', .cons trivial ?_ hrun, hback⟩
    simp only [step, callStep, hu, hnot]
    rfl
  cases hpc : s.calls c with
  | registered task' =>
      rw [hpc] at hc
      cases hc
      by_cases hjson : Engine.marshalable ((s.engine.tasks.get task.id).getD task) = true
      · obtain ⟨s', hrun, hback⟩ := hfail (s.toCall c
          (.marshalled task ((s.engine.tasks.get task.id).getD task)) s.engine)
          ((s.engine.tasks.get task.id).getD task) (by simp [toCall])
        refine ⟨.call c failingAppend :: _, s', .cons trivial ?_ hrun, hback⟩
        simp only [step, callStep, hpc, hjson, if_true]
      · obtain ⟨s', hrun, hback⟩ := hundo (s.toCall c (.undoing task) s.engine)
          (by simp [toCall])
        refine ⟨.call c failingAppend :: _, s', .cons trivial ?_ hrun, hback⟩
        simp only [step, callStep, hpc, hjson]
        rfl
  | marshalled task' data =>
      rw [hpc] at hc
      cases hc
      obtain ⟨s', hrun, hback⟩ := hfail s data hpc
      exact ⟨_, s', hrun, hback⟩
  | undoing task' =>
      rw [hpc] at hc
      cases hc
      obtain ⟨s', hrun, hback⟩ := hundo s hpc
      exact ⟨_, s', hrun, hback⟩
  | _ =>
      rw [hpc] at hc
      cases hc

/--
A `Submit` is refused as a duplicate in a state of some run.  From then on a task with
its key is registered, in every continuation, if and only if the `Submit` that it
collided with has its record in the log.
-/
theorem duplicate_stands_iff
    (cfg : Engine.Config) (es : List (Event n m)) (s : World n m)
    (hrun : Lib.Run step (fun _ _ => True) (initial cfg) es s)
    (task : Task) (id : TaskID)
    (hdup : s.engine.duplicateOf task = some id) :
    s.DuplicateStands task ↔ ∀ c, id ∉ (s.calls c).unlogged := by
  have h := hrun.invariant Keyed step_keyed (initial_keyed cfg)
  obtain ⟨t, ht, hkey⟩ := h.agree.duplicate hdup
  constructor
  · intro hstands c hc
    rw [CallPc.unlogged_eq] at hc
    obtain ⟨task', hentering, hid⟩ : ∃ task', (s.calls c).entering = some task' ∧
        task'.id = id := by
      cases hentering : (s.calls c).entering with
      | none =>
          simp [hentering] at hc
      | some task' =>
          simp only [hentering, Option.map_some, Option.toList_some,
            List.mem_singleton] at hc
          exact ⟨task', rfl, hc.symm⟩
    obtain ⟨es', s', hrun', htasks, hkeys⟩ := exists_takenBack hentering
    obtain ⟨t', ht', hkey'⟩ := h.entering c task' hentering
    rw [hid, ht] at ht'
    cases ht'
    have hne : task.idempotencyKey ≠ "" := by
      intro hempty
      simp [Engine.duplicateOf, hempty] at hdup
    -- the key is gone, and with it, since the two agree, every task that had it
    have hgone : s'.engine.idempKeys.get task.idempotencyKey = none := by
      rw [hkeys, Engine.idempKeys_unregister, ← hkey', hkey, if_pos ⟨hne, rfl⟩]
    obtain ⟨j, u, hu, hsame⟩ := hstands es' s' hrun'
    have hagree := (hrun'.invariant Keyed step_keyed h).agree
    have hmapped := hagree.mapped j u hu (hsame ▸ hne)
    rw [hsame, hgone] at hmapped
    cases hmapped
  · intro hnot
    exact duplicateStands_of_logged h hdup ⟨by rw [ht]; rfl, hnot⟩

/-- The first client has its record in the log. -/
def firstLogged : List (Event 1 2) :=
  .submit 0 keyed "a" 10 :: List.replicate 2 (.call 0 (.noError 10 300))

theorem duplicate_stands_iff_firstLogged :
    ∃ s : World 1 2,
      Lib.Run step (fun _ _ => True) (initial System.roomyConfig) firstLogged s ∧
      s.engine.duplicateOf keyed = some "a" ∧ s.DuplicateStands keyed := by
  obtain ⟨s, hrun, hdup, hlogged⟩ :=
    Lib.exists_run_of_exec step (fun _ _ => True)
      (fun s : World 1 2 => s.engine.duplicateOf keyed = some "a" ∧
        ∀ c, "a" ∉ (s.calls c).unlogged)
      (initial System.roomyConfig) firstLogged (by decide +kernel)
  exact ⟨s, hrun, hdup, (duplicate_stands_iff System.roomyConfig firstLogged s hrun keyed
    "a" hdup).mpr hlogged⟩

/-- The second client is refused, and then the `Append` of the first fails. -/
def refusedThenFailed : List (Event 1 2) :=
  [.submit 1 keyed "b" 10, .call 0 (.noError 10 300), .call 0 failingAppend,
    .call 0 failingAppend]

/-- The refused client was told of a task that is gone in the end. -/
theorem duplicate_taken_back :
    ∃ s : World 1 2,
      Lib.Run step (fun _ _ => True) (initial System.roomyConfig)
        [.submit 0 keyed "a" 10] s ∧
      s.engine.duplicateOf keyed = some "a" ∧ ¬ s.DuplicateStands keyed := by
  obtain ⟨s, hrun, hdup, hlater⟩ :=
    Lib.exists_run_of_exec step (fun _ _ => True)
      (fun s : World 1 2 => s.engine.duplicateOf keyed = some "a" ∧
        (Lib.exec step (fun _ _ => True) s refusedThenFailed).any
          (fun s' => decide (s'.engine.tasks.keys = ∅)) = true)
      (initial System.roomyConfig) [.submit 0 keyed "a" 10] (by decide +kernel)
  refine ⟨s, hrun, hdup, ?_⟩
  intro hstands
  obtain ⟨s', hrun', hempty⟩ := Lib.exists_run_of_exec step (fun _ _ => True)
    (fun s' : World 1 2 => s'.engine.tasks.keys = ∅) s refusedThenFailed hlater
  obtain ⟨id, t, ht, -⟩ := hstands refusedThenFailed s' hrun'
  have hmem : id ∈ s'.engine.tasks.keys := Lib.GoMap.mem_keys.mpr (by rw [ht]; rfl)
  rw [hempty] at hmem
  simp at hmem

end World
end TaskQueue
