import Mathlib.Tactic
import TaskQueue.Concurrent.Keys
import TaskQueue.Api.Paging

/-!
# Reading the dead-letter queue while it grows

A client reads `GET /dlq` page by page, and asks each time for the entries behind those it has
got, while the goroutines of the engine go on burying tasks.  `e.dlq` is only ever appended to,
so that the client misses no entry and gets none twice, whatever happens between two requests
(`dead_letters_read_in_order`).

The response has an entry for every task of the page, because a buried task stays registered: a
failed `Submit` takes back a task that only this `Submit` has (`Filed`).
-/

namespace TaskQueue

open Lib (Run Moves)
open Queue
open Wal (LogEnv)

namespace World

variable {n m : Nat} {s s' : World n m}

section Dlq

/-- A worker leaves the dead-letter queue as it is, or appends the task that it holds. -/
theorem WorkerStep.dlq
    {w : Fin n} {env : LogEnv}
    (h : WorkerStep s w env s') :
    s'.engine.dlq = s.engine.dlq ∨
      ∃ id err, s.workers w = .burying id err ∧
        s' = s.toWorker w (.checking id (some err)) (s.engine.pushDLQ id) := by
  cases h with
  | @bury id err hpc =>
      exact Or.inr ⟨id, err, hpc, rfl⟩
  | @write id result hpc =>
      exact Or.inl (by cases result <;> rfl)
  | _ =>
      exact Or.inl rfl

theorem SchedulerStep.dlq
    {now : Time}
    (h : SchedulerStep s now s') :
    s'.engine.dlq = s.engine.dlq := by
  cases h <;> rfl

theorem CallStep.dlq
    {c : Fin m} {env : LogEnv}
    (h : CallStep s c env s') :
    s'.engine.dlq = s.engine.dlq := by
  cases h <;> rfl

theorem checkpointStep_dlq
    {order : List TaskID}
    (h : s.checkpointStep order = some s') :
    s'.engine.dlq = s.engine.dlq := by
  cases checkpointStep_cases h <;> rfl

end Dlq

/-- The dead-letter queue is only appended to. -/
theorem dlq_prefix
    {ev : Event n m}
    (hstep : s.step ev = some s') :
    s.engine.dlq <+: s'.engine.dlq := by
  have hsame : s'.engine.dlq = s.engine.dlq → s.engine.dlq <+: s'.engine.dlq := by
    intro h
    rw [h]
  cases ev with
  | worker w env result delay =>
      rcases (workerStep_cases hstep).dlq with h | ⟨id, err, -, rfl⟩
      · exact hsame h
      · exact List.prefix_append _ [id]
  | scheduler now =>
      exact hsame (schedulerStep_cases hstep).dlq
  | submit c task generatedID now =>
      rcases submitStep_cases hstep with rfl | ⟨-, -, -, rfl⟩
      · exact hsame rfl
      · exact hsame rfl
  | cancel c id now =>
      rcases cancelStep_cases hstep with rfl | ⟨-, t, -, -, rfl⟩
      · exact hsame rfl
      · exact hsame rfl
  | call c env =>
      exact hsame (callStep_cases hstep).dlq
  | checkpoint order =>
      exact hsame (checkpointStep_dlq hstep)

/--
What every run keeps of the dead-letter queue: it is the one of the start with the tasks behind
it that were buried since, each of them once, and these are in nobody's hands.
-/
structure Filed (old : List TaskID) (s : World n m) : Prop where
  custody : Custody s
  registered : ∀ id ∈ s.engine.dlq, (s.engine.tasks.get id).isSome = true
  unclaimed : ∀ id ∈ s.engine.dlq, ∀ c, id ∉ (s.calls c).holds
  grown : ∃ buried, s.engine.dlq = old ++ buried ∧ buried.Nodup ∧
    ∀ id ∈ buried, ∀ p, id ∉ s.holdings p

variable {old : List TaskID}

theorem Filed.mem_issued
    (h : Filed old s)
    {id : TaskID}
    (hid : id ∈ s.engine.dlq) :
    id ∈ s.issued := by
  by_contra hnot
  have hsome := h.registered id hid
  rw [(h.custody.fresh hnot).1] at hsome
  cases hsome

/-- A step that buries nothing, after which a task is held that was held before, or is new. -/
theorem Filed.kept
    (h : Filed old s)
    (hcustody : Custody s')
    (hdlq : s'.engine.dlq = s.engine.dlq)
    (htasks : ∀ id ∈ s.engine.dlq, (s.engine.tasks.get id).isSome = true →
      (s'.engine.tasks.get id).isSome = true)
    (hcalls : ∀ c id, id ∈ (s'.calls c).holds → id ∈ (s.calls c).holds ∨ id ∉ s.issued)
    (hheld : ∀ p id, id ∈ s'.holdings p → (∃ q, id ∈ s.holdings q) ∨ id ∉ s.issued) :
    Filed old s' := by
  obtain ⟨buried, heq, hnodup, hfree⟩ := h.grown
  refine ⟨hcustody, ?_, ?_, buried, hdlq.trans heq, hnodup, ?_⟩
  · rw [hdlq]
    intro id hid
    exact htasks id hid (h.registered id hid)
  · rw [hdlq]
    intro id hid c hc
    rcases hcalls c id hc with hold | hnew
    · exact h.unclaimed id hid c hold
    · exact hnew (h.mem_issued hid)
  · intro id hid p hp
    rcases hheld p id hp with ⟨q, hq⟩ | hnew
    · exact hfree id hid q hq
    · refine hnew (h.mem_issued ?_)
      rw [heq]
      exact List.mem_append_right _ hid

/-- A worker buries the task that it holds. -/
theorem Filed.bury
    {w : Fin n} {id : TaskID} {err : Engine.HandlerError}
    (h : Filed old s)
    (hpc : s.workers w = .burying id err)
    (hcustody : Custody (s.toWorker w (.checking id (some err)) (s.engine.pushDLQ id))) :
    Filed old (s.toWorker w (.checking id (some err)) (s.engine.pushDLQ id)) := by
  obtain ⟨buried, heq, hnodup, hfree⟩ := h.grown
  have hheld : id ∈ s.holdings (.worker w) := by simp [holdings, hpc, WorkerPc.holds]
  refine ⟨hcustody, ?_, ?_, buried ++ [id], ?_, ?_, ?_⟩
  · intro j hj
    rcases List.mem_append.mp hj with hj | hj
    · exact h.registered j hj
    · rw [List.mem_singleton.mp hj]
      exact h.custody.registered hheld
  · intro j hj c
    rcases List.mem_append.mp hj with hj | hj
    · exact h.unclaimed j hj c
    · rw [List.mem_singleton.mp hj]
      exact h.custody.exclusive.elsewhere (q := .call c) hheld (by simp)
  · show s.engine.dlq ++ [id] = _
    rw [heq, List.append_assoc]
  · rw [← List.concat_eq_append]
    exact hnodup.concat fun hmem => hfree id hmem _ hheld
  · intro j hj p hp
    have hpw : p ≠ .worker w := by
      rintro rfl
      rw [holdings_toWorker_self] at hp
      cases hp
    have hrest : (s.toWorker w (.checking id (some err)) (s.engine.pushDLQ id)).holdings p =
        s.holdings p := s.acted_toWorker.holdings hpw (Or.inr rfl) (Or.inr rfl)
    rw [hrest] at hp
    rcases List.mem_append.mp hj with hj | hj
    · exact hfree j hj p hp
    · rw [List.mem_singleton.mp hj] at hp
      exact h.custody.exclusive.elsewhere hheld hpw hp

theorem workerStep_filed
    {w : Fin n} {env : LogEnv}
    (h : Filed old s)
    (hstep : WorkerStep s w env s') :
    Filed old s' := by
  have hcustody := workerStep_custody h.custody hstep
  rcases hstep.dlq with hdlq | ⟨id, err, hpc, rfl⟩
  · refine h.kept hcustody hdlq ?_ ?_ ?_
    · intro id _ hsome
      rwa [hstep.sameTasks.isSome]
    · intro c id hid
      rw [hstep.acted.calls c (by simp)] at hid
      exact Or.inl hid
    · intro p id hid
      exact Or.inl (hstep.moves.origin hid)
  · exact h.bury hpc hcustody

theorem schedulerStep_filed
    {now : Time}
    (h : Filed old s)
    (hstep : SchedulerStep s now s') :
    Filed old s' := by
  refine h.kept (schedulerStep_custody h.custody hstep) hstep.dlq ?_ ?_ ?_
  · intro id _ hsome
    rwa [hstep.sameTasks.isSome]
  · intro c id hid
    rw [hstep.acted.calls c (by simp)] at hid
    exact Or.inl hid
  · intro p id hid
    exact Or.inl (hstep.moves.origin hid)

/-- A failed `Submit` takes its own task out of the registry, and nothing else does. -/
theorem CallStep.registered
    {c : Fin m} {env : LogEnv}
    (h : CallStep s c env s')
    {id : TaskID}
    (hid : id ∉ (s.calls c).holds)
    (hsome : (s.engine.tasks.get id).isSome = true) :
    (s'.engine.tasks.get id).isSome = true := by
  cases h with
  | @undo task hpc =>
      have hne : id ≠ task.id := by
        rintro rfl
        exact hid (by simp [hpc, CallPc.holds])
      show ((s.engine.unregister task).tasks.get id).isSome = true
      rwa [Engine.get_unregister, if_neg hne]
  | _ =>
      exact hsome

theorem callStep_filed
    {c : Fin m} {env : LogEnv}
    (h : Filed old s)
    (hstep : CallStep s c env s') :
    Filed old s' := by
  refine h.kept (callStep_custody h.custody hstep) hstep.dlq ?_ ?_ ?_
  · intro id hid hsome
    exact hstep.registered (h.unclaimed id hid c) hsome
  · intro c' id hid
    exact Or.inl (hstep.holds_subset c' hid)
  · intro p id hid
    exact Or.inl (hstep.moves.origin hid)

theorem submitStep_filed
    {c : Fin m} {task : Task} {generatedID : TaskID} {now : Time}
    (h : Filed old s)
    (hstep : s.submitStep c task generatedID now = some s') :
    Filed old s' := by
  have hcustody := submitStep_custody h.custody hstep
  rcases submitStep_registers hstep with ⟨rfl, -⟩ | hreg
  · exact h
  · -- what is held after the step is the new task, or it is where it was
    have hheld : ∀ p id, id ∈ s'.holdings p → id ∈ s.holdings p ∨ id ∉ s.issued := by
      intro p id hid
      by_cases hp : p = .call c
      · subst hp
        have hself : id ∈ (s'.calls c).holds := hid
        rw [hreg.call] at hself
        rw [List.mem_singleton.mp hself]
        exact Or.inr hreg.fresh
      · rw [hreg.rest p hp] at hid
        exact Or.inl hid
    refine h.kept hcustody ?_ ?_ (fun c' id hid => hheld (.call c') id hid) ?_
    · rw [hreg.engine]
      rfl
    · intro id _ hsome
      rw [hreg.engine, Engine.get_register]
      split_ifs
      · rfl
      · exact hsome
    · intro p id hid
      exact (hheld p id hid).imp (fun hold => ⟨p, hold⟩) (fun hnew => hnew)

theorem cancelStep_filed
    {c : Fin m} {id : TaskID} {now : Time}
    (h : Filed old s)
    (hstep : s.cancelStep c id now = some s') :
    Filed old s' := by
  have hcustody := cancelStep_custody h.custody hstep
  rcases cancelStep_cases hstep with rfl | ⟨hpc, t, -, -, rfl⟩
  · exact h
  · have hsame : Engine.SameTasks s.engine (s.engine.updateTask id (Engine.cancelledAt now)) :=
      Engine.sameTasks_updateTask _ _ _ (fun _ => rfl)
    have hmoves : Moves s.holdings (s.toCall c (.cancelling id)
        (s.engine.updateTask id (Engine.cancelledAt now))).holdings :=
      s.moves_toCall (Or.inr rfl) rfl rfl
    refine h.kept hcustody rfl ?_ ?_ (fun p j hj => Or.inl (hmoves.origin hj))
    · intro j _ hsome
      exact (hsame.isSome j).trans hsome
    · intro c' j hj
      left
      by_cases hc : c' = c
      · subst hc
        simp [toCall, CallPc.holds] at hj
      · rwa [s.acted_toCall.calls c' (by simpa using Ne.symm hc)] at hj

theorem checkpointStep_filed
    {order : List TaskID}
    (h : Filed old s)
    (hstep : s.checkpointStep order = some s') :
    Filed old s' := by
  have hsame := checkpointStep_unmoved hstep
  refine h.kept (checkpointStep_custody h.custody hstep) (checkpointStep_dlq hstep) ?_ ?_ ?_
  · intro id _ hsome
    rwa [hsame.tasks]
  · intro c id hid
    rw [hsame.calls] at hid
    exact Or.inl hid
  · intro p id hid
    rw [hsame.holdings] at hid
    exact Or.inl ⟨p, hid⟩

/-- Every step keeps what is known of the dead-letter queue. -/
theorem step_filed
    {ev : Event n m}
    (h : Filed old s)
    (hstep : s.step ev = some s') :
    Filed old s' := by
  cases ev with
  | worker w env result delay =>
      exact workerStep_filed h (workerStep_cases hstep)
  | scheduler now =>
      exact schedulerStep_filed h (schedulerStep_cases hstep)
  | submit c task generatedID now =>
      exact submitStep_filed h hstep
  | cancel c id now =>
      exact cancelStep_filed h hstep
  | call c env =>
      exact callStep_filed h (callStep_cases hstep)
  | checkpoint order =>
      exact checkpointStep_filed h hstep

theorem start_filed
    {cfg : Engine.Config} {d : Engine.Disk} {order : List TaskID} {e : Engine}
    (h : Engine.Recovered cfg d order e) :
    Filed e.dlq (start e d order : World n m) := by
  obtain ⟨loaded, last, hload, -, hall⟩ := h.restarted
  refine ⟨start_custody h, ?_, ?_, [], (List.append_nil _).symm, List.nodup_nil, ?_⟩
  · intro id hid
    have hid' : id ∈ loaded.dlq := hall.dlq ▸ hid
    show (e.tasks.get id).isSome = true
    rw [hall.tasks id, Option.isSome_map]
    exact Engine.loadTasks_dlq hload id hid'
  · intro id _ c hc
    cases hc
  · intro id hid
    cases hid

end World

namespace Api

open Engine

/-- The query `?limit=...&offset=...`. -/
def pageQuery (limit offset : Int64) (key : String) : String :=
  if key = "limit" then
    String.ofList (Lib.decimal limit.toInt)
  else if key = "offset" then
    String.ofList (Lib.decimal offset.toInt)
  else
    ""

/-- The entries of a page are those of its tasks, if all of them are registered. -/
theorem map_id_deadLetterResponses
    {e : Engine} {page : List TaskID}
    (h : ∀ id ∈ page, ∃ t, e.tasks.get id = some t ∧ t.id = id) :
    (page.filterMap fun id => (e.tasks.get id).map deadLetterResponse).map TaskResponse.id =
      page := by
  induction page with
  | nil =>
      rfl
  | cons id page ih =>
      obtain ⟨t, hget, hid⟩ := h id List.mem_cons_self
      have hrest := ih fun j hj => h j (List.mem_cons_of_mem id hj)
      rw [List.filterMap_cons, hget, Option.map_some]
      dsimp only
      rw [List.map_cons, hrest]
      exact congrArg (· :: page) hid

/-- The response to a request that fits. -/
theorem handleDLQ_page
    {e : Engine} {limit offset : Int64}
    (hfits : PageFits e.dlq.length limit offset)
    (hnamed : ∀ id ∈ e.dlq, ∃ t, e.tasks.get id = some t ∧ t.id = id) :
    ∃ tasks,
      handleDLQ e .get (pageQuery limit offset) =
        .respond ⟨200, .deadLetters tasks e.dlq.length⟩ ∧
      tasks.map TaskResponse.id =
        Lib.window e.dlq (max offset.toInt 0) (offset.toInt + limit.toInt) := by
  have hlimit : queryInt (pageQuery limit offset "limit") 50 = limit := queryInt_decimal limit 50
  have hoffset : queryInt (pageQuery limit offset "offset") 0 = offset :=
    queryInt_decimal offset 0
  have hids := map_id_deadLetterResponses
    fun id (hid : id ∈ Lib.window e.dlq (max offset.toInt 0) (offset.toInt + limit.toInt)) =>
      hnamed id (Lib.mem_of_mem_window hid)
  refine ⟨_, ?_, hids⟩
  rw [handleDLQ]
  dsimp only
  rw [hlimit, hoffset, listDLQ_of_fits hfits]

end Api

/-- The process, and a client that reads the dead-letter queue; `seen` are the IDs it has got. -/
structure Browser (n m : Nat) where
  world : World n m
  seen : List TaskID

namespace Browser

open Api

variable {n m : Nat} {s s' : Browser n m}

/-- A step of a goroutine of the engine, or a request for the next page. -/
inductive Event (n m : Nat)
  | thread (ev : World.Event n m)
  | page (limit : Int64)

/-- The transitions; the request is for the entries behind those the client has got. -/
def step (s : Browser n m) : Event n m → Option (Browser n m)
  | .thread ev => (s.world.step ev).map fun world => { s with world := world }
  | .page limit =>
      match handleDLQ s.world.engine .get (pageQuery limit (Int64.ofNat s.seen.length)) with
      | .respond ⟨200, .deadLetters tasks _⟩ =>
          some { s with seen := s.seen ++ tasks.map TaskResponse.id }
      | _ => none

/-- The page has a size, and its end is not beyond the machine integers. -/
def Fits (s : Browser n m) : Event n m → Prop
  | .thread _ => True
  | .page limit => 0 < limit ∧ (s.world.engine.dlq.length : Int) + limit.toInt < 2 ^ 63

instance (s : Browser n m) (ev : Event n m) : Decidable (s.Fits ev) :=
  match ev with
  | .thread _ => inferInstanceAs (Decidable True)
  | .page limit =>
      inferInstanceAs (Decidable (0 < limit ∧
        (s.world.engine.dlq.length : Int) + limit.toInt < 2 ^ 63))

/-- The process after `Start`, and a client that has got nothing yet. -/
def start (e : Engine) (d : Engine.Disk) (order : List TaskID) : Browser n m where
  world := World.start e d order
  seen := []

/-- What every run keeps: the client has got the first entries. -/
structure Reading (old : List TaskID) (s : Browser n m) : Prop where
  filed : World.Filed old s.world
  seen : s.seen <+: s.world.engine.dlq

variable {old : List TaskID}

/-- The next page has the next entries. -/
theorem step_page
    (h : Reading old s)
    {limit : Int64}
    (hfits : s.Fits (.page limit)) :
    s.step (.page limit) =
      some { s with
        seen := s.world.engine.dlq.take (s.seen.length + limit.toInt.toNat) } := by
  obtain ⟨hpos, hbound⟩ := hfits
  have hlimit : 0 < limit.toInt := Int64.lt_iff_toInt_lt.mp hpos
  have hlen : s.seen.length ≤ s.world.engine.dlq.length := h.seen.length_le
  have hoffset : (Int64.ofNat s.seen.length).toInt = s.seen.length :=
    Int64.toInt_ofNat_of_lt (by omega)
  have hpage : Engine.PageFits s.world.engine.dlq.length limit (Int64.ofNat s.seen.length) := by
    right
    rw [Engine.nonneg_iff_toInt, Engine.nonneg_iff_toInt, hoffset]
    omega
  have hnamed : ∀ id ∈ s.world.engine.dlq,
      ∃ t, s.world.engine.tasks.get id = some t ∧ t.id = id := by
    intro id hid
    obtain ⟨t, ht⟩ := Option.isSome_iff_exists.mp (h.filed.registered id hid)
    exact ⟨t, ht, (h.filed.custody.named id t ht).1⟩
  obtain ⟨tasks, hrespond, hids⟩ := handleDLQ_page hpage hnamed
  have hnext : s.seen ++ tasks.map TaskResponse.id =
      s.world.engine.dlq.take (s.seen.length + limit.toInt.toNat) := by
    have hcount : ((s.seen.length : Int) + limit.toInt).toNat - (s.seen.length : Int).toNat =
        limit.toInt.toNat := by omega
    rw [hids, hoffset, max_eq_left (Int.natCast_nonneg _), Lib.window_eq_take_drop, hcount,
      Int.toNat_natCast, List.take_add, ← List.prefix_iff_eq_take.mp h.seen]
  simp only [step, hrespond, hnext]

theorem step_reading
    (s : Browser n m) (ev : Event n m) (s' : Browser n m)
    (h : Reading old s)
    (hfits : s.Fits ev)
    (hstep : s.step ev = some s') :
    Reading old s' := by
  cases ev with
  | thread ev =>
      obtain ⟨world, hworld, rfl⟩ := Option.map_eq_some_iff.mp hstep
      exact ⟨World.step_filed h.filed hworld, h.seen.trans (World.dlq_prefix hworld)⟩
  | page limit =>
      rw [step_page h hfits] at hstep
      cases hstep
      exact ⟨h.filed, List.take_prefix _ _⟩

/--
In all interleavings of the goroutines, a client that reads the dead-letter queue page by page at
any times, with pages of any sizes that `Fits` allows, has always got the first entries of the
queue, in order: it misses none and gets none twice, though tasks are buried while it reads.  The
queue is the recovered one with the tasks behind it that were buried since, each of them once.
The next request for such a page is answered, and the page has the next entries.
-/
theorem dead_letters_read_in_order
    {cfg : Engine.Config} {d : Engine.Disk} {order : List TaskID} {e : Engine}
    (h : Engine.Recovered cfg d order e)
    (es : List (Event n m)) (s : Browser n m)
    (hrun : Run step Fits (start e d order) es s) :
    s.seen <+: s.world.engine.dlq ∧
    (∃ buried, s.world.engine.dlq = e.dlq ++ buried ∧ buried.Nodup ∧
      ∀ id ∈ buried, ∀ p, id ∉ s.world.holdings p) ∧
    ∀ limit, s.Fits (.page limit) →
      ∃ s', s.step (.page limit) = some s' ∧ s'.world = s.world ∧
        s'.seen = s.world.engine.dlq.take (s.seen.length + limit.toInt.toNat) := by
  have hreading : Reading e.dlq s :=
    hrun.invariant (Reading e.dlq) step_reading ⟨World.start_filed h, List.nil_prefix⟩
  refine ⟨hreading.seen, hreading.filed.grown, ?_⟩
  intro limit hfits
  exact ⟨_, step_page hreading hfits, rfl, rfl⟩

/-- A task is submitted and fails for good. -/
def buryOne (id : TaskID) (now : Time) : List (Event 1 1) :=
  let attempt : World.Event 1 1 := .worker 0 (.noError now 100) (some ⟨"boom", true⟩) 0
  (World.wholeSubmit 0 Task.zero id now ++ List.replicate 9 attempt).map .thread

/-- A page is read after the first of three tasks. -/
def readBetween : List (Event 1 1) :=
  buryOne "a" 10 ++ .page 1 :: buryOne "b" 20 ++ buryOne "c" 30

theorem dead_letters_read_in_order_readBetween :
    ∃ s : Browser 1 1,
      Run step Fits (start (System.initial System.roomyConfig).engine Engine.Disk.empty [])
        readBetween s ∧
      (s.seen = ["a"] ∧ s.world.engine.dlq = ["a", "b", "c"]) ∧
      ∃ s', s.step (.page 1) = some s' ∧ s'.seen = ["a", "b"] := by
  obtain ⟨s, hrun, hseen, hfits⟩ :=
    Lib.exists_run_of_exec step Fits
      (fun s => (s.seen = ["a"] ∧ s.world.engine.dlq = ["a", "b", "c"]) ∧ s.Fits (.page 1))
      (start (System.initial System.roomyConfig).engine Engine.Disk.empty [])
      readBetween (by decide +kernel)
  obtain ⟨-, -, hnext⟩ :=
    dead_letters_read_in_order (World.recovered_initial System.roomyConfig) readBetween s hrun
  obtain ⟨s', hstep, -, hread⟩ := hnext 1 hfits
  refine ⟨s, hrun, hseen, s', hstep, ?_⟩
  rw [hread, hseen.1, hseen.2]
  rfl

end Browser
end TaskQueue
