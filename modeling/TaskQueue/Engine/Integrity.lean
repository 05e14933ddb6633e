import Mathlib.Tactic
import TaskQueue.Engine.Placement
import TaskQueue.Engine.FailedSubmit
import TaskQueue.Engine.Identifiers
import TaskQueue.Concurrent.Keys

/-!
# What was submitted stays as it was

Over any number of checkpoints, clean shutdowns, kills and recoveries, the registry has only
tasks that were passed to `Submit`, with the payload, priority, key, limit of retries and timeout
that they were registered with (`tasks_as_submitted`), and the idempotency keys are those of the
registered tasks (`keys_across_restarts`).

Both follow from what a step can do to the registry, the keys and the directory (`Effect`): it
leaves what was submitted as it is and logs at most a record that is no `EntryEnqueue`; it enters
a new task in the registry and in the log; it takes a checkpoint; or it is a restart
(`Restart`).
-/

namespace TaskQueue

open Lib (GoMap Run)
open Queue
open Wal (Log LogEnv LogRecord Snapshot)

namespace Engine

/-- Every task of the registry has what it was submitted with, under its own ID. -/
def Genuine (submissions : List Submission) (e : Engine) : Prop :=
  ∀ id t, e.tasks.get id = some t → t.id = id ∧ submissionOf t ∈ submissions

/-- What is in the second registry is in the first one, as it was submitted. -/
def Within (e loaded : Engine) : Prop :=
  ∀ id t, loaded.tasks.get id = some t →
    ∃ t', e.tasks.get id = some t' ∧ submissionOf t' = submissionOf t

section Registry

variable {submissions : List Submission} {e e' loaded : Engine}

theorem Genuine.same
    (h : Genuine submissions e)
    (hsame : SameSubmissions e e') :
    Genuine submissions e' := by
  intro id t' ht'
  obtain ⟨t, ht, hsub⟩ := hsame.symm.get_some ht'
  obtain ⟨hid, hmem⟩ := h id t ht
  rw [hsub] at hmem
  exact ⟨(congrArg Submission.id hsub).symm.trans hid, hmem⟩

theorem Genuine.register
    (h : Genuine submissions e)
    {t : Task}
    (ht : submissionOf t ∈ submissions) :
    Genuine submissions (e.register t) := by
  intro id t' ht'
  rw [get_register] at ht'
  split_ifs at ht' with hid
  · cases ht'
    exact ⟨hid.symm, ht⟩
  · exact h id t' ht'

theorem Genuine.mono
    (h : Genuine submissions e)
    {more : List Submission}
    (hsub : submissions ⊆ more) :
    Genuine more e := by
  intro id t ht
  exact ⟨(h id t ht).1, hsub (h id t ht).2⟩

theorem Within.same
    (h : Within e loaded)
    (hsame : SameSubmissions e e') :
    Within e' loaded := by
  intro id t ht
  obtain ⟨t₁, ht₁, hsub₁⟩ := h id t ht
  obtain ⟨t₂, ht₂, hsub₂⟩ := hsame.get_some ht₁
  exact ⟨t₂, ht₂, hsub₂.trans hsub₁⟩

theorem Within.of_loaded
    {loaded' : Engine}
    (h : Within e loaded)
    (hsame : SameSubmissions loaded loaded') :
    Within e loaded' := by
  intro id t' ht'
  obtain ⟨t, ht, hsub⟩ := hsame.symm.get_some ht'
  obtain ⟨t₁, ht₁, hsub₁⟩ := h id t ht
  exact ⟨t₁, ht₁, hsub₁.trans hsub⟩

theorem within_new
    (e : Engine) (cfg : Config) :
    Within e (new cfg) := by
  intro id t ht
  rw [show (new cfg).tasks.get id = none from GoMap.get_empty id] at ht
  cases ht

/-- The next task of a registry with exact keys is entered in a part of it. -/
theorem KeysAgree.enter
    {t t' : Task}
    (h : KeysAgree loaded)
    (hwithin : Within e loaded)
    (he : KeysAgree e)
    (hget : e.tasks.get t.id = some t')
    (hsub : submissionOf t' = submissionOf t)
    (hfresh : loaded.tasks.get t.id = none) :
    KeysAgree (loaded.register t) ∧ Within e (loaded.register t) := by
  have hkey : t'.idempotencyKey = t.idempotencyKey := congrArg Submission.idempotencyKey hsub
  constructor
  · refine h.register hfresh ?_
    intro hne
    -- a task of `loaded` with this key would be this one
    cases hused : loaded.idempKeys.get t.idempotencyKey with
    | none =>
        rfl
    | some id =>
        obtain ⟨-, t₁, ht₁, hkey₁⟩ := h.carried _ _ hused
        obtain ⟨t₂, ht₂, hsub₂⟩ := hwithin id t₁ ht₁
        have hkey₂ : t₂.idempotencyKey = t.idempotencyKey :=
          (congrArg Submission.idempotencyKey hsub₂).trans hkey₁
        have hfirst := he.mapped id t₂ ht₂ (hkey₂ ▸ hne)
        have hsecond := he.mapped t.id t' hget (hkey ▸ hne)
        rw [hkey₂] at hfirst
        rw [hkey, hfirst] at hsecond
        rw [Option.some.inj hsecond, hfresh] at ht₁
        cases ht₁
  · intro id t₁ ht₁
    rw [get_register] at ht₁
    split_ifs at ht₁ with hid
    · cases ht₁
      exact ⟨t', hid ▸ hget, hsub⟩
    · exact hwithin id t₁ ht₁

theorem submissionOf_throughSnapshot
    (t : Task) :
    submissionOf (Wal.throughSnapshot t) = submissionOf t := by
  rfl

/-- An entry other than an `EntryEnqueue` leaves what was submitted, and the keys. -/
theorem applyEntry_sameSubmissions
    {entry : Entry}
    (htype : entry.type ≠ .enqueue)
    (h : e.applyEntry entry = .ok e') :
    SameSubmissions e e' ∧ e'.idempKeys = e.idempKeys := by
  rcases applyEntry_cases h with ⟨t, henq, -, -⟩ | ⟨-, -, rfl⟩ | ⟨-, -, rfl⟩ | rfl
  · exact absurd henq htype
  · exact ⟨sameSubmissions_updateTask _ _ _ (submissionOf_entryUpdate entry), rfl⟩
  · exact ⟨sameSubmissions_updateTask e _ _ (submissionOf_entryUpdate entry), rfl⟩
  · exact ⟨SameSubmissions.refl _, rfl⟩

/-- The keys that come back from a snapshot are those of its tasks. -/
theorem KeysAgree.loadSnapshot
    {order : List TaskID}
    (h : KeysAgree loaded)
    (hwithin : Within e loaded)
    (he : KeysAgree e)
    (hnamed : ∀ id t, e.tasks.get id = some t → t.id = id)
    (hnodup : order.Nodup)
    (hfresh : ∀ id ∈ order, loaded.tasks.get id = none) :
    KeysAgree (loaded.loadSnapshot (some (e.takeSnapshot order))) ∧
      Within e (loaded.loadSnapshot (some (e.takeSnapshot order))) := by
  unfold Engine.loadSnapshot takeSnapshot
  dsimp only
  induction order generalizing loaded with
  | nil =>
      exact ⟨h, hwithin⟩
  | cons id order ih =>
      obtain ⟨hnotin, hrest⟩ := List.nodup_cons.mp hnodup
      have hlater : ∀ j ∈ order, loaded.tasks.get j = none := by
        intro j hj
        exact hfresh j (List.mem_cons_of_mem id hj)
      cases hget : e.tasks.get id with
      | none =>
          rw [List.filterMap_cons, hget]
          exact ih h hwithin hrest hlater
      | some t =>
          rw [List.filterMap_cons, hget, Option.map_some, List.foldl_cons]
          have hid : (Wal.throughSnapshot t).id = id := hnamed id t hget
          obtain ⟨hkeys, hpart⟩ := h.enter (t := Wal.throughSnapshot t) hwithin he
            (hid ▸ hget) (submissionOf_throughSnapshot t).symm
            (hid ▸ hfresh id List.mem_cons_self)
          refine ih hkeys hpart hrest ?_
          intro j hj
          have hne : j ≠ (Wal.throughSnapshot t).id := by
            rintro rfl
            rw [hid] at hj
            exact hnotin hj
          exact (get_register _ _ j).trans ((if_neg hne).trans (hlater j hj))

end Registry

end Engine

namespace System

open Engine (HandlerError Named SameSubmissions Submission submissionOf Genuine Within KeysAgree
  Durably)

/--
What a step other than a restart can do to the registry, the keys and the directory, and the task
it enters.
-/
inductive Effect (s s' : System) : Option Task → Prop
  | quiet
      (htasks : SameSubmissions s.engine s'.engine)
      (hkeys : s'.engine.idempKeys = s.engine.idempKeys)
      (hdisk : Logs s.disk s'.disk) :
      Effect s s' none
  | enters (t : Task) (r : LogRecord Engine.EntryData)
      (hid : t.id ∉ s.issued)
      (hkey : t.idempotencyKey ≠ "" → s.engine.idempKeys.get t.idempotencyKey = none)
      (htasks : s'.engine.tasks = (s.engine.register t).tasks)
      (hkeys : s'.engine.idempKeys = (s.engine.register t).idempKeys)
      (htype : r.entry.type = .enqueue)
      (hdata : r.entry.data.task = some t)
      (hdisk : s'.disk = s.disk.extend r) :
      Effect s s' (some t)
  | saves (order : List TaskID)
      (horder : s.engine.tasks.Enumerates order)
      (htasks : s'.engine.tasks = s.engine.tasks)
      (hkeys : s'.engine.idempKeys = s.engine.idempKeys)
      (hdisk : s'.disk = (s.engine.checkpoint s.disk order).2) :
      Effect s s' none

/-- What a restart does to them. -/
inductive Restart (s s' : System) : Prop
  | loads (cfg : Engine.Config) (loaded : Engine) (last : Nat)
      (hload : Engine.loadTasks cfg s.disk = .ok (loaded, last))
      (htasks : SameSubmissions loaded s'.engine)
      (hkeys : s'.engine.idempKeys = loaded.idempKeys)
      (hdisk : s'.disk = s.disk) :
      Restart s s'

theorem submit_effect
    {s s' : System} {task : Task} {generatedID : TaskID} {now : Time} {len : Nat}
    (hsound : Sound s)
    (h : s.submit task generatedID now len = some s') :
    Effect s s' none ∨ Effect s s' (some (s.submitted task generatedID now)) := by
  obtain ⟨hid, hcases⟩ := submit_cases hsound h
  rcases hcases with rfl | ⟨⟨hdup, -⟩, hcases⟩
  · exact Or.inl (.quiet (SameSubmissions.refl _) rfl (Or.inl rfl))
  · have hkey : (s.submitted task generatedID now).idempotencyKey ≠ "" →
        s.engine.idempKeys.get (s.submitted task generatedID now).idempotencyKey = none := by
      intro hne
      rw [submitted, Engine.prepare_idempotencyKey] at hne ⊢
      rwa [Engine.duplicateOf, if_neg hne] at hdup
    rcases hcases with ⟨-, rfl⟩ | ⟨-, rb, -, rfl⟩ | ⟨-, rfl⟩ | ⟨-, rfl⟩
    all_goals
      exact Or.inr (.enters _ (s.enqueueRecord (s.submitted task generatedID now) now len) hid hkey
        rfl rfl rfl rfl rfl)

section Quiet

variable {s s' : System}

theorem sameSubmissions_of_tasks
    {e e' : Engine}
    (htasks : e'.tasks = e.tasks)
    (id : TaskID) {f : Task → Task}
    (hf : ∀ t, submissionOf (f t) = submissionOf t) :
    SameSubmissions e (e'.updateTask id f) := by
  intro j
  rw [Engine.sameSubmissions_updateTask e' id f hf j, htasks]

theorem unblock_effect
    {id : TaskID}
    (h : s.unblock id = some s') :
    Effect s s' none := by
  obtain ⟨-, ⟨rb, -, rfl⟩ | rfl⟩ := unblock_cases h
  · exact .quiet (SameSubmissions.refl _) rfl (Or.inl rfl)
  · exact .quiet (SameSubmissions.refl _) rfl (Or.inl rfl)

theorem cancel_effect
    (s : System) (id : TaskID) (now : Time) (len : Nat) :
    Effect s (s.cancel id now len) none := by
  rcases cancel_cases s id now len with hsame | ⟨t, -, -, ⟨-, hs'⟩ | ⟨-, hs'⟩⟩
  · rw [hsame]
    exact .quiet (SameSubmissions.refl _) rfl (Or.inl rfl)
  · rw [hs']
    exact .quiet (sameSubmissions_of_tasks rfl id (fun _ => rfl)) rfl
      (logs_append _ _ _ _ _ _ (by simp))
  · rw [hs']
    exact .quiet (sameSubmissions_of_tasks rfl id (fun _ => rfl)) rfl
      (logs_append _ _ _ _ _ _ (by simp))

theorem schedule_effect
    {now later : Time}
    (hsound : Sound s)
    (h : s.schedule now later = some s') :
    Effect s s' none := by
  obtain ⟨id, rest, t, -, -, hcases⟩ := schedule_cases hsound h
  rcases hcases with ⟨-, rfl⟩ | ⟨-, -, rfl⟩ | ⟨-, rb, -, rfl⟩ | ⟨-, rfl⟩
  · exact .quiet (SameSubmissions.refl _) rfl (Or.inl rfl)
  · exact .quiet (sameSubmissions_of_tasks rfl id (fun _ => rfl)) rfl (Or.inl rfl)
  · exact .quiet (SameSubmissions.refl _) rfl (Or.inl rfl)
  · exact .quiet (sameSubmissions_of_tasks rfl id (fun _ => rfl)) rfl (Or.inl rfl)

theorem finish_effect
    {id : TaskID} {result : Option HandlerError} {now : Time} {delay : Duration} {len : Nat}
    (hsound : Sound s)
    (h : s.finish id result now delay len = some s') :
    Effect s s' none := by
  obtain ⟨-, t, -, hcases⟩ := finish_cases hsound h
  rcases hcases with ⟨-, rfl⟩ | ⟨err, -, -, rfl⟩ | ⟨err, -, -, rfl⟩
  all_goals
    exact .quiet (sameSubmissions_of_tasks rfl id (fun _ => rfl)) rfl
      (logs_append _ _ _ _ _ _ (by simp))

theorem checkpoint_effect
    {order : List TaskID}
    (h : s.checkpoint order = some s') :
    Effect s s' none := by
  obtain ⟨horder, rfl⟩ := checkpoint_cases h
  exact .saves order horder rfl rfl rfl

theorem boot_restart
    {cfg : Engine.Config} {order : List TaskID}
    (h : s.boot cfg order = some s') :
    Restart s s' := by
  obtain ⟨loaded, last, e, hload, horder, hreb, rfl⟩ := boot_cases h
  have hall := Engine.rebuildQueues_restarted hload horder hreb
  have hkeys : e.idempKeys = loaded.idempKeys :=
    Engine.rebuildQueues_idempKeys (e := loaded.openLog last) hreb
  refine .loads cfg loaded last hload ?_ hkeys rfl
  intro id
  show (e.tasks.get id).map submissionOf = _
  rw [hall.tasks id, Option.map_map]
  congr 1
  funext t
  exact Engine.submissionOf_requeue t

end Quiet

/-- Every step has an effect, and a kill or a clean shutdown (a checkpoint) a restart after it. -/
theorem step_effect
    {s s' : System} {e : Event}
    (hsound : Sound s)
    (h : s.step e = some s') :
    (∃ o, Effect s s' o ∧ ∀ t, o = some t →
      ∃ task generatedID now len, e = .submit task generatedID now len ∧
        t = s.submitted task generatedID now) ∨
    (Numbered.restarts e = true ∧ ∃ mid, Effect s mid none ∧ Restart mid s') := by
  cases e with
  | submit task generatedID now len =>
      left
      rcases submit_effect hsound h with hquiet | henters
      · exact ⟨none, hquiet, by simp⟩
      · refine ⟨_, henters, ?_⟩
        rintro t ⟨rfl⟩
        exact ⟨task, generatedID, now, len, rfl, rfl⟩
  | unblock id =>
      exact Or.inl ⟨none, unblock_effect h, by simp⟩
  | cancel id now len =>
      cases h
      exact Or.inl ⟨none, cancel_effect s id now len, by simp⟩
  | promote now =>
      obtain ⟨-, rfl⟩ := promote_cases h
      exact Or.inl ⟨none,
        .quiet (Engine.sameSubmissions_promoteReady _ _) rfl (Or.inl rfl), by simp⟩
  | schedule now later =>
      exact Or.inl ⟨none, schedule_effect hsound h, by simp⟩
  | start now len =>
      obtain ⟨id, rb, -, rfl⟩ := start_cases h
      exact Or.inl ⟨none, .quiet (sameSubmissions_of_tasks rfl id (fun _ => rfl)) rfl
        (logs_append _ _ _ _ _ _ (by simp)), by simp⟩
  | finish id result now delay len =>
      exact Or.inl ⟨none, finish_effect hsound h, by simp⟩
  | checkpoint order =>
      exact Or.inl ⟨none, checkpoint_effect h, by simp⟩
  | shutdown order cfg recoverOrder =>
      simp only [step] at h
      split_ifs at h
      obtain ⟨mid, hcheck, hboot⟩ := Option.bind_eq_some_iff.mp h
      exact Or.inr ⟨rfl, mid, checkpoint_effect hcheck, boot_restart hboot⟩
  | kill cfg recoverOrder =>
      exact Or.inr ⟨rfl, s, .quiet (SameSubmissions.refl _) rfl (Or.inl rfl), boot_restart h⟩

/-- Between two restarts no task leaves the registry. -/
theorem Effect.registered
    {s s' : System} {o : Option Task}
    (he : Effect s s' o)
    {id : TaskID}
    (h : (s.engine.tasks.get id).isSome) :
    (s'.engine.tasks.get id).isSome := by
  obtain ⟨t, ht⟩ := Option.isSome_iff_exists.mp h
  cases he with
  | quiet htasks hkeys hdisk =>
      obtain ⟨t', ht', -⟩ := htasks.get_some ht
      rw [ht', Option.isSome_some]
  | enters t₀ r hid hkey htasks hkeys htype hdata hdisk =>
      rw [htasks, Engine.get_register]
      split_ifs
      · rfl
      · exact h
  | saves order horder htasks hkeys hdisk =>
      rw [htasks]
      exact h

/-- Memory and directory have only what was submitted. -/
structure Faithful (submissions : List Submission) (s : System) : Prop where
  memory : Genuine submissions s.engine
  directory : Durably s.disk (Genuine submissions)

theorem Effect.faithful
    {submissions more : List Submission} {s s' : System} {o : Option Task}
    (he : Effect s s' o)
    (hsound : Sound s)
    (h : Faithful submissions s)
    (hmore : submissions ⊆ more)
    (hnew : ∀ t, o = some t → submissionOf t ∈ more) :
    Faithful more s' := by
  have hmemory := h.memory.mono hmore
  have hdirectory : Durably s.disk (Genuine more) :=
    fun cfg loaded last hload => (h.directory cfg loaded last hload).mono hmore
  cases he with
  | quiet htasks hkeys hdisk =>
      refine ⟨hmemory.same htasks, ?_⟩
      rcases hdisk with hsame | ⟨r, htype, hextend⟩
      · rw [hsame]
        exact hdirectory
      · rw [hextend]
        refine hdirectory.extend r (fun _ _ he => he) ?_
        intro e e' he happly
        exact he.same (Engine.applyEntry_sameSubmissions htype happly).1
  | enters t r hid hkey htasks hkeys htype hdata hdisk =>
      have ht := hnew t rfl
      constructor
      · intro id t' ht'
        rw [htasks] at ht'
        exact hmemory.register ht id t' ht'
      · rw [hdisk]
        refine hdirectory.extend r (fun _ _ he => he) ?_
        intro e e' he happly
        simp only [Engine.applyEntry, htype, hdata, Except.ok.injEq] at happly
        rw [← happly]
        exact he.register ht
  | saves order horder htasks hkeys hdisk =>
      constructor
      · intro id t ht
        rw [htasks] at ht
        exact hmemory id t ht
      · rw [hdisk]
        intro cfg loaded last hload id t ht
        obtain ⟨loaded', hload', -, hget⟩ := Engine.loadTasks_checkpoint cfg
          (fun id t ht => (hsound.named id t ht).1) horder s.disk
        rw [hload'] at hload
        cases hload
        rw [hget id] at ht
        obtain ⟨t₀, ht₀, rfl⟩ := Option.map_eq_some_iff.mp ht
        exact hmemory id t₀ ht₀

theorem Restart.faithful
    {submissions : List Submission} {s s' : System}
    (hr : Restart s s')
    (h : Faithful submissions s) :
    Faithful submissions s' := by
  obtain ⟨cfg, loaded, last, hload, htasks, -, hdisk⟩ := hr
  refine ⟨(h.directory cfg loaded last hload).same htasks, ?_⟩
  rw [hdisk]
  exact h.directory

/-- The keys are exact, and stay so when the directory is read. -/
structure Keyed (s : System) : Prop where
  memory : KeysAgree s.engine
  directory : Durably s.disk fun loaded => KeysAgree loaded ∧ Within s.engine loaded

theorem Effect.keyed
    {s s' : System} {o : Option Task}
    (he : Effect s s' o)
    (hsound : Sound s)
    (h : Keyed s) :
    Keyed s' := by
  cases he with
  | quiet htasks hkeys hdisk =>
      refine ⟨h.memory.same htasks hkeys, ?_⟩
      have hdirectory : Durably s.disk fun loaded => KeysAgree loaded ∧ Within s'.engine loaded :=
        fun cfg loaded last hload =>
          (h.directory cfg loaded last hload).imp id fun hwithin => hwithin.same htasks
      rcases hdisk with hsame | ⟨r, htype, hextend⟩
      · rw [hsame]
        exact hdirectory
      · rw [hextend]
        refine hdirectory.extend r (fun _ _ he => he) ?_
        rintro e e' ⟨hagree, hwithin⟩ happly
        obtain ⟨hsubs, hsamekeys⟩ := Engine.applyEntry_sameSubmissions htype happly
        exact ⟨hagree.same hsubs hsamekeys, hwithin.of_loaded hsubs⟩
  | enters t r hid hkey htasks hkeys htype hdata hdisk =>
      have hfresh : s.engine.tasks.get t.id = none := hsound.named.get_eq_none hid
      have hregistered : KeysAgree s'.engine :=
        (h.memory.register hfresh hkey).same (fun j => by rw [htasks]) hkeys
      have hget : s'.engine.tasks.get t.id = some t := by
        rw [htasks, Engine.get_register, if_pos rfl]
      have hgrown : ∀ loaded, Within s.engine loaded → Within s'.engine loaded := by
        intro loaded hwithin id t₁ ht₁
        obtain ⟨t₂, ht₂, hsub⟩ := hwithin id t₁ ht₁
        have hne : id ≠ t.id := by
          rintro rfl
          rw [hfresh] at ht₂
          cases ht₂
        exact ⟨t₂, by rw [htasks, Engine.get_register, if_neg hne, ht₂], hsub⟩
      refine ⟨hregistered, ?_⟩
      rw [hdisk]
      refine h.directory.extend r (fun _ loaded hloaded => ⟨hloaded.1, hgrown loaded hloaded.2⟩) ?_
      rintro loaded loaded' ⟨hagree, hwithin⟩ happly
      simp only [Engine.applyEntry, htype, hdata, Except.ok.injEq] at happly
      have hnew : loaded.tasks.get t.id = none := by
        cases hold : loaded.tasks.get t.id with
        | none =>
            rfl
        | some t₁ =>
            obtain ⟨t₂, ht₂, -⟩ := hwithin t.id t₁ hold
            rw [hfresh] at ht₂
            cases ht₂
      rw [← happly]
      exact hagree.enter (hgrown loaded hwithin) hregistered hget rfl hnew
  | saves order horder htasks hkeys hdisk =>
      have hsame : SameSubmissions s.engine s'.engine := fun j => by rw [htasks]
      refine ⟨h.memory.same hsame hkeys, ?_⟩
      rw [hdisk]
      intro cfg loaded last hload
      cases hload
      obtain ⟨hagree, hwithin⟩ := (Engine.keysAgree_new cfg).loadSnapshot
        (Engine.within_new s.engine cfg) h.memory (fun id t ht => (hsound.named id t ht).1) horder.1
        (fun id _ => GoMap.get_empty id)
      exact ⟨hagree, hwithin.same hsame⟩

theorem Restart.keyed
    {s s' : System}
    (hr : Restart s s')
    (h : Keyed s) :
    Keyed s' := by
  obtain ⟨cfg, loaded, last, hload, htasks, hkeys, hdisk⟩ := hr
  refine ⟨(h.directory cfg loaded last hload).1.same htasks hkeys, ?_⟩
  rw [hdisk]
  intro cfg₂ loaded₂ last₂ hload₂
  refine ⟨(h.directory cfg₂ loaded₂ last₂ hload₂).1, ?_⟩
  intro id t ht
  rw [Engine.loadTasks_tasks hload₂ hload] at ht
  exact htasks.get_some ht

theorem keyed_initial
    (cfg : Engine.Config) :
    Keyed (initial cfg) := by
  refine ⟨(Engine.keysAgree_new cfg).same (fun _ => rfl) rfl, ?_⟩
  intro cfg' loaded last hload
  cases hload
  exact ⟨Engine.keysAgree_new cfg', Engine.within_new _ cfg'⟩

theorem step_keyed
    {s s' : System} {e : Event}
    (hsound : Sound s)
    (h : Keyed s)
    (hstep : s.step e = some s') :
    Keyed s' := by
  rcases step_effect hsound hstep with ⟨o, heffect, -⟩ | ⟨-, mid, hfirst, hrestart⟩
  · exact heffect.keyed hsound h
  · exact hrestart.keyed (hfirst.keyed hsound h)

/--
With operations that are taken whole and meet no I/O errors, over any number of checkpoints,
shutdowns, kills and recoveries the idempotency keys are exact: a key is in the map, with an ID,
just when the registered task with this ID carries it, so that no two registered tasks have the
same key; and a `Submit` with the key of a registered task is told about this task and changes
nothing.
-/
theorem keys_across_restarts
    (cfg : Engine.Config) (es : List Event) (s : System)
    (hrun : Run step (fun _ _ => True) (initial cfg) es s) :
    (∀ key id, s.engine.idempKeys.get key = some id ↔
      key ≠ "" ∧ ∃ t, s.engine.tasks.get id = some t ∧ t.idempotencyKey = key) ∧
    (∀ id id' t t', s.engine.tasks.get id = some t → s.engine.tasks.get id' = some t' →
      t.idempotencyKey ≠ "" → t.idempotencyKey = t'.idempotencyKey → id = id') ∧
    ∀ id t task generatedID now io, s.engine.tasks.get id = some t → t.idempotencyKey ≠ "" →
      task.idempotencyKey = t.idempotencyKey →
      s.engine.submit s.disk task generatedID now io = (s.engine, s.disk, .duplicate (some t)) := by
  obtain ⟨-, hkeyed⟩ : Sound s ∧ Keyed s :=
    hrun.invariant (fun s => Sound s ∧ Keyed s)
      (fun s e s' h _ hstep => ⟨step_sound h.1 hstep, step_keyed h.1 h.2 hstep⟩)
      ⟨sound_initial cfg, keyed_initial cfg⟩
  obtain ⟨hcarried, hmapped⟩ := hkeyed.memory
  refine ⟨?_, ?_, ?_⟩
  · intro key id
    constructor
    · exact hcarried key id
    · rintro ⟨hne, t, ht, rfl⟩
      exact hmapped id t ht hne
  · intro id id' t t' ht ht' hne hsame
    have hfirst := hmapped id t ht hne
    have hsecond := hmapped id' t' ht' (hsame ▸ hne)
    rw [hsame, hsecond] at hfirst
    exact (Option.some.inj hfirst).symm
  · intro id t task generatedID now io ht hne hkey
    have hdup : s.engine.duplicateOf task = some id := by
      rw [Engine.duplicateOf, hkey, if_neg hne]
      exact hmapped id t ht hne
    simp only [Engine.submit, hdup, ht]

/-- A task with a key is completed and saved, a second one is submitted, and the process dies. -/
def keyedAcrossRestarts : List Event :=
  [.submit { Task.zero with idempotencyKey := "k" } "a" 10 100, .start 11 100,
    .finish "a" none 12 0 100, .checkpoint ["a"],
    .submit { Task.zero with idempotencyKey := "l" } "b" 13 100, .kill roomyConfig ["b", "a"]]

theorem keys_across_restarts_two :
    ∃ s, Run step (fun _ _ => True) (initial roomyConfig) keyedAcrossRestarts s ∧
      (s.engine.idempKeys.get "k" = some "a" ∧ s.engine.idempKeys.get "l" = some "b") ∧
      ∀ task generatedID now io, task.idempotencyKey = "k" →
        ∃ t, s.engine.submit s.disk task generatedID now io =
          (s.engine, s.disk, .duplicate (some t)) := by
  obtain ⟨s, hrun, hkeys⟩ :=
    Lib.exists_run_of_exec step (fun _ _ => True)
      (fun s => s.engine.idempKeys.get "k" = some "a" ∧ s.engine.idempKeys.get "l" = some "b")
      (initial roomyConfig) keyedAcrossRestarts (by decide +kernel)
  obtain ⟨hexact, -, hdup⟩ := keys_across_restarts roomyConfig keyedAcrossRestarts s hrun
  obtain ⟨hne, t, ht, hkey⟩ := (hexact "k" "a").mp hkeys.1
  refine ⟨s, hrun, hkeys, ?_⟩
  intro task generatedID now io htask
  exact ⟨t, hdup "a" t task generatedID now io ht (hkey ▸ hne) (htask.trans hkey.symm)⟩

end System

/-- The system, and what its `Submit` calls were asked to enter, with the defaults filled in. -/
structure Archive where
  system : System
  submissions : List Engine.Submission

namespace Archive

open Engine (Submission submissionOf)

/-- What is noted at a step. -/
def noted (a : Archive) : System.Event → List Submission
  | .submit task generatedID now _ =>
      submissionOf (a.system.submitted task generatedID now) :: a.submissions
  | _ => a.submissions

/-- The transitions are those of the system. -/
def step (a : Archive) (e : System.Event) : Option Archive :=
  (a.system.step e).map fun s => { system := s, submissions := a.noted e }

/-- An empty directory. -/
def initial (cfg : Engine.Config) : Archive where
  system := System.initial cfg
  submissions := []

/-- What every run keeps. -/
structure Kept (a : Archive) : Prop where
  sound : System.Sound a.system
  faithful : System.Faithful a.submissions a.system
  ids : a.submissions.map Submission.id = a.system.issued
  nodup : a.system.issued.Nodup

theorem kept_initial
    (cfg : Engine.Config) :
    Kept (initial cfg) := by
  refine ⟨System.sound_initial cfg, ⟨?_, ?_⟩, rfl, List.nodup_nil⟩
  · intro id t ht
    exact absurd ht (by simp [initial, System.initial, Engine.openLog, Engine.new])
  · intro cfg' loaded last hload id t ht
    cases hload
    exact absurd ht (by simp [Engine.loadSnapshot, Engine.new, initial, System.initial,
      Engine.Disk.empty])

theorem subset_noted
    (a : Archive) (e : System.Event) :
    a.submissions ⊆ a.noted e := by
  cases e with
  | submit task generatedID now len =>
      exact List.subset_cons_self _ _
  | _ =>
      exact List.Subset.refl _

/-- A `Submit` notes a new ID, and no other step gives one out. -/
theorem Kept.noted_ids
    {a : Archive} {e : System.Event} {s : System}
    (h : Kept a)
    (hs : a.system.step e = some s) :
    (a.noted e).map Submission.id = s.issued ∧ s.issued.Nodup := by
  cases e with
  | submit task generatedID now len =>
      simp only [System.step, System.submit] at hs
      split_ifs at hs with hid
      cases hs
      exact ⟨congrArg (_ :: ·) h.ids, List.nodup_cons.mpr ⟨hid, h.nodup⟩⟩
  | _ =>
      rw [Numbered.issued_other rfl hs]
      exact ⟨h.ids, h.nodup⟩

theorem step_kept
    {a b : Archive} {e : System.Event}
    (h : Kept a)
    (hstep : a.step e = some b) :
    Kept b := by
  obtain ⟨s, hs, rfl⟩ := Option.map_eq_some_iff.mp hstep
  have hfaithful : System.Faithful (a.noted e) s := by
    rcases System.step_effect h.sound hs with ⟨o, heffect, hnew⟩ | ⟨-, mid, hfirst, hrestart⟩
    · refine heffect.faithful h.sound h.faithful (a.subset_noted e) ?_
      intro t ht
      obtain ⟨task, generatedID, now, len, rfl, rfl⟩ := hnew t ht
      exact List.mem_cons_self
    · exact hrestart.faithful (hfirst.faithful h.sound h.faithful (a.subset_noted e) (by simp))
  obtain ⟨hids, hnodup⟩ := h.noted_ids hs
  exact ⟨System.step_sound h.sound hs, hfaithful, hids, hnodup⟩

/-- Two submissions with one ID are the same. -/
theorem Kept.submission_eq
    {a : Archive}
    (h : Kept a)
    {x y : Submission}
    (hx : x ∈ a.submissions)
    (hy : y ∈ a.submissions)
    (hid : x.id = y.id) :
    x = y := by
  have hnodup : (a.submissions.map Submission.id).Nodup := by
    rw [h.ids]
    exact h.nodup
  exact List.inj_on_of_nodup_map hnodup hx hy hid

theorem run_submissions
    {a b : Archive} {es : List System.Event}
    (hrun : Run step (fun _ _ => True) a es b) :
    a.submissions ⊆ b.submissions := by
  induction hrun with
  | nil =>
      exact List.Subset.refl _
  | @cons a _ _ e _ _ hstep _ ih =>
      obtain ⟨s, -, rfl⟩ := Option.map_eq_some_iff.mp hstep
      exact List.Subset.trans (a.subset_noted e) ih

/--
With operations that are taken whole and meet no I/O errors, over any number of checkpoints,
shutdowns, kills and recoveries, every registered task was passed to exactly one `Submit` of the
run and has the ID, key, payload, priority, limit of
retries and timeout that it was entered with; and it has them in every later state in which
it is registered.
-/
theorem tasks_as_submitted
    (cfg : Engine.Config) (es : List System.Event) (a : Archive)
    (hrun : Run step (fun _ _ => True) (initial cfg) es a) :
    (∀ id t, a.system.engine.tasks.get id = some t →
      t.id = id ∧ submissionOf t ∈ a.submissions ∧
        ∀ x ∈ a.submissions, x.id = id → x = submissionOf t) ∧
    ∀ fs b, Run step (fun _ _ => True) a fs b →
      ∀ id t t', a.system.engine.tasks.get id = some t → b.system.engine.tasks.get id = some t' →
        submissionOf t' = submissionOf t := by
  have hkeeps : ∀ (a : Archive) e b, Kept a → True → a.step e = some b → Kept b :=
    fun _ _ _ h _ hstep => step_kept h hstep
  have ha : Kept a := hrun.invariant Kept hkeeps (kept_initial cfg)
  constructor
  · intro id t ht
    obtain ⟨hid, hmem⟩ := ha.faithful.memory id t ht
    refine ⟨hid, hmem, ?_⟩
    intro x hx hxid
    exact ha.submission_eq hx hmem (hxid.trans hid.symm)
  · intro fs b hlater id t t' ht ht'
    have hb : Kept b := hlater.invariant Kept hkeeps ha
    obtain ⟨hid, hmem⟩ := ha.faithful.memory id t ht
    obtain ⟨hid', hmem'⟩ := hb.faithful.memory id t' ht'
    exact hb.submission_eq hmem' (run_submissions hlater hmem) (hid'.trans hid.symm)

/-- A task is submitted, retried, saved and found again by the next process. -/
def savedAndFound : List System.Event :=
  [.submit { Task.zero with payload := [1, 2], priority := 5 } "a" 10 100, .start 11 100,
    .finish "a" (some ⟨"timeout", false⟩) 12 1000 100, .checkpoint ["a"],
    .kill System.roomyConfig ["a"]]

theorem tasks_as_submitted_savedAndFound :
    ∃ a, Run step (fun _ _ => True) (initial System.roomyConfig) savedAndFound a ∧
      (a.system.engine.tasks.get "a").map submissionOf =
        some ⟨"a", "", [1, 2], 5, 3, 30000000000⟩ ∧
      ∀ fs b, Run step (fun _ _ => True) a fs b → ∀ t',
        b.system.engine.tasks.get "a" = some t' →
          submissionOf t' = ⟨"a", "", [1, 2], 5, 3, 30000000000⟩ := by
  obtain ⟨a, hrun, hsub⟩ :=
    Lib.exists_run_of_exec step (fun _ _ => True)
      (fun a => (a.system.engine.tasks.get "a").map submissionOf =
        some ⟨"a", "", [1, 2], 5, 3, 30000000000⟩)
      (initial System.roomyConfig) savedAndFound (by decide +kernel)
  refine ⟨a, hrun, hsub, ?_⟩
  intro fs b hlater t' ht'
  obtain ⟨t, ht, hwas⟩ := Option.map_eq_some_iff.mp hsub
  have hsame := (tasks_as_submitted System.roomyConfig savedAndFound a hrun).2 fs b hlater
    "a" t t' ht ht'
  exact hsame.trans hwas

end Archive

end TaskQueue
