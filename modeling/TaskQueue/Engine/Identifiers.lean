import Mathlib.Tactic
import TaskQueue.Lib.Decimal
import TaskQueue.Lib.Runs
import TaskQueue.Engine.System

/-!
# Generated task IDs

`generateID` of `internal/engine/engine.go` names a task by the time in nanoseconds and a
64-bit counter that starts at zero in every process.  The system of `TaskQueue.Engine.System`
takes it for granted that new tasks have new IDs, and has no step for a `Submit` with an ID
that was given out before.  This module joins the system with the counter and the clock: if
the clock does not go back, a restart takes at least a nanosecond and the counter does not
run over, there is a step for every `Submit` without an ID (`generated_ids_always_new`).
-/

namespace TaskQueue

open Lib (Run decimal)
open Queue
open Wal (Log LogEnv LogRecord Snapshot)

namespace Engine

/-- `fmt.Sprintf("task_%d_%d", nanos, counter)`. -/
def taskID (nanos : Int) (counter : Nat) : TaskID :=
  String.ofList ("task_".toList ++ (decimal nanos ++ '_' :: decimal counter))

/-- `generateID`: the counter afterwards, and the ID. -/
def generateID (idCounter : UInt64) (now : Time) : UInt64 × TaskID :=
  (idCounter + 1, taskID (Wal.unixNano now) (idCounter + 1).toNat)

theorem underscore_notMem_decimal
    (n : Int) :
    '_' ∉ decimal n := by
  intro h
  rcases Lib.mem_decimal h with hsign | ⟨k, hk, hdigit⟩
  · exact absurd hsign (by decide)
  · revert hdigit
    interval_cases k <;> decide

theorem taskID_ne_empty
    (nanos : Int) (counter : Nat) :
    taskID nanos counter ≠ "" := by
  intro h
  have hchars : "task_".toList ++ (decimal nanos ++ '_' :: decimal counter) = [] :=
    String.ofList_injective h
  rw [List.append_eq_nil_iff, List.append_eq_nil_iff] at hchars
  exact List.cons_ne_nil _ _ hchars.2.2

/-- The time and the number are read off the ID. -/
theorem taskID_inj
    {t t' : Int} {c c' : Nat}
    (h : taskID t c = taskID t' c') :
    t = t' ∧ c = c' := by
  have hlists : decimal t ++ '_' :: decimal c = decimal t' ++ '_' :: decimal c' := by
    have hchars := String.ofList_injective h
    exact List.append_cancel_left hchars
  obtain ⟨htime, -, hcounter⟩ :=
    (List.append_cons_inj_of_notMem (underscore_notMem_decimal t)
      (underscore_notMem_decimal c)).mp hlists
  exact ⟨Lib.decimal_injective htime, Int.ofNat.inj (Lib.decimal_injective hcounter)⟩

theorem unixNano_eq
    {now : Int}
    (hlow : -2 ^ 63 ≤ now)
    (hhigh : now < 2 ^ 63) :
    Wal.unixNano now = now := by
  unfold Wal.unixNano
  exact Int.bmod_eq_of_le (by omega) (by omega)

end Engine

/-- The system with the counter of `generateID`, the last reading of the clock and the
time at which the process was started. -/
structure Numbered where
  system : System
  idCounter : UInt64
  clock : Time
  started : Time

namespace Numbered

/-- `Submit` at a time, or any other step of the system, with the time after it. -/
inductive Event
  | submit (task : Task) (now : Time) (len : Nat)
  | other (ev : System.Event) (now : Time)

/-- The step ends the process and starts the next one. -/
def restarts : System.Event → Bool
  | .shutdown _ _ _ => true
  | .kill _ _ => true
  | _ => false

/-- The step is a `Submit`. -/
def submits : System.Event → Bool
  | .submit _ _ _ _ => true
  | _ => false

/-- The counter and the ID after the first lines of `Submit`. -/
def nextID (s : Numbered) (task : Task) (now : Time) : UInt64 × TaskID :=
  if task.id = "" then Engine.generateID s.idCounter now else (s.idCounter, task.id)

/-- The transitions; a `Submit` with a key that is in use returns before `generateID`. -/
def step (s : Numbered) : Event → Option Numbered
  | .submit task now len =>
      match s.system.engine.duplicateOf task with
      | some _ => some { s with clock := now }
      | none =>
          (s.system.submit task (s.nextID task now).2 now len).map fun system =>
            { s with system := system, idCounter := (s.nextID task now).1, clock := now }
  | .other ev now =>
      (s.system.step ev).map fun system =>
        if restarts ev then
          { system := system, idCounter := 0, clock := now, started := now }
        else
          { s with system := system, clock := now }

/-- The first process, started at the given time. -/
def initial (cfg : Engine.Config) (now : Time) : Numbered where
  system := System.initial cfg
  idCounter := 0
  clock := now
  started := now

/--
The tasks come without IDs, the clock does not go back and stays before the year 2262, a
restart takes time, and a process calls `generateID` less than `2 ^ 64` times.
-/
def Advancing (s : Numbered) : Event → Prop
  | .submit task now _ =>
      task.id = "" ∧ s.clock ≤ now ∧ now < 2 ^ 63 ∧ s.idCounter.toNat + 1 < 2 ^ 64
  | .other ev now =>
      submits ev = false ∧ s.clock ≤ now ∧ now < 2 ^ 63 ∧ (restarts ev = true → s.clock < now)

instance (s : Numbered) (ev : Event) : Decidable (s.Advancing ev) :=
  match ev with
  | .submit task now _ =>
      inferInstanceAs (Decidable (task.id = "" ∧ s.clock ≤ now ∧ now < 2 ^ 63 ∧
        s.idCounter.toNat + 1 < 2 ^ 64))
  | .other ev now =>
      inferInstanceAs (Decidable (submits ev = false ∧ s.clock ≤ now ∧ now < 2 ^ 63 ∧
        (restarts ev = true → s.clock < now)))

/-- The ID was given out at an earlier time, by an earlier process or with a smaller number. -/
def GivenOut (s : Numbered) (id : TaskID) : Prop :=
  ∃ t c, id = Engine.taskID t c ∧ t ≤ s.clock ∧ (t < s.started ∨ c ≤ s.idCounter.toNat)

/-- What every run keeps. -/
structure Told (s : Numbered) : Prop where
  epoch : -2 ^ 63 ≤ s.started
  running : s.started ≤ s.clock
  issued : ∀ id ∈ s.system.issued, s.GivenOut id

theorem told_initial
    (cfg : Engine.Config) {now : Time}
    (h : -2 ^ 63 ≤ now) :
    Told (initial cfg now) where
  epoch := h
  running := le_rfl
  issued := nofun

variable {s s' : Numbered}

/-- What was given out before, was given out before later as well. -/
theorem GivenOut.mono
    {id : TaskID}
    (h : s.GivenOut id)
    (hclock : s.clock ≤ s'.clock)
    (hstarted : s.started = s'.started ∧ s.idCounter.toNat ≤ s'.idCounter.toNat ∨
      s.clock < s'.started) :
    s'.GivenOut id := by
  obtain ⟨t, c, rfl, ht, hold⟩ := h
  refine ⟨t, c, rfl, ht.trans hclock, ?_⟩
  rcases hstarted with ⟨hsame, hcounter⟩ | hrestart
  · rw [← hsame]
    exact hold.imp id fun hc => hc.trans hcounter
  · exact Or.inl (ht.trans_lt hrestart)

theorem toNat_succ
    {c : UInt64}
    (h : c.toNat + 1 < 2 ^ 64) :
    (c + 1).toNat = c.toNat + 1 := by
  rw [UInt64.toNat_add, UInt64.toNat_one]
  exact Nat.mod_eq_of_lt h

/-- The next ID is none of those that were given out. -/
theorem Told.generateID_new
    {now : Time}
    (h : Told s)
    (hclock : s.clock ≤ now)
    (hnow : now < 2 ^ 63)
    (hcounter : s.idCounter.toNat + 1 < 2 ^ 64) :
    (Engine.generateID s.idCounter now).2 ∉ s.system.issued := by
  intro hmem
  obtain ⟨t, c, heq, ht, hold⟩ := h.issued _ hmem
  have hrange : -2 ^ 63 ≤ now := h.epoch.trans (h.running.trans hclock)
  simp only [Engine.generateID, Engine.unixNano_eq hrange hnow, toNat_succ hcounter] at heq
  obtain ⟨rfl, rfl⟩ := Engine.taskID_inj heq
  rcases hold with hearlier | hsmaller
  · exact absurd (hearlier.trans_le (h.running.trans hclock)) (lt_irrefl _)
  · exact absurd hsmaller (Nat.not_succ_le_self _)

/-- The ID of the task that `Submit` registers. -/
theorem prepare_id
    (e : Engine) {task : Task} (generatedID : TaskID) (now : Time)
    (h : task.id = "") :
    (e.prepare task generatedID now).id = generatedID := by
  have hid : (Engine.withInitialState task now).id = "" := by
    rw [← h]
    unfold Engine.withInitialState
    split_ifs <;> rfl
  simp [Engine.prepare, hid]

/-- Only `Submit` gives out IDs. -/
theorem issued_other
    {sys sys' : System} {ev : System.Event}
    (hsubmits : submits ev = false)
    (hstep : sys.step ev = some sys') :
    sys'.issued = sys.issued := by
  have hboot : ∀ {t t' : System} {cfg : Engine.Config} {order : List TaskID},
      t.boot cfg order = some t' → t'.issued = t.issued := by
    intro t t' cfg order h
    unfold System.boot at h
    split at h
    · cases h
    · split_ifs at h
      obtain ⟨e, -, rfl⟩ := Option.map_eq_some_iff.mp h
      rfl
  have hran : ∀ {t t' : System} {o : Option Runtime},
      o.map t.ran = some t' → t'.issued = t.issued := by
    intro t t' o h
    obtain ⟨r, -, rfl⟩ := Option.map_eq_some_iff.mp h
    rfl
  cases ev with
  | submit task generatedID now len =>
      cases hsubmits
  | unblock id =>
      obtain ⟨r, -, rfl⟩ := Option.map_eq_some_iff.mp hstep
      rfl
  | cancel id now len =>
      cases hstep
      rfl
  | promote now =>
      exact hran hstep
  | schedule now later =>
      exact hran hstep
  | start now len =>
      exact hran hstep
  | finish id result now delay len =>
      exact hran hstep
  | checkpoint order =>
      exact hran hstep
  | shutdown order cfg recoverOrder =>
      simp only [System.step] at hstep
      split_ifs at hstep
      obtain ⟨t, ht, hnext⟩ := Option.bind_eq_some_iff.mp hstep
      exact (hboot hnext).trans (hran ht)
  | kill cfg recoverOrder =>
      exact hboot hstep

/-- A `Submit` without an ID gives out the ID of `generateID`. -/
theorem submit_issued
    {sys sys' : System} {task : Task} {generatedID : TaskID} {now : Time} {len : Nat}
    (hid : task.id = "")
    (hstep : sys.submit task generatedID now len = some sys') :
    sys'.issued = generatedID :: sys.issued := by
  simp only [System.submit, prepare_id sys.engine generatedID now hid] at hstep
  split_ifs at hstep
  cases hstep
  rfl

/-- Every step keeps the invariant. -/
theorem step_told
    (s : Numbered) (ev : Event) (s' : Numbered)
    (h : Told s)
    (hok : s.Advancing ev)
    (hstep : s.step ev = some s') :
    Told s' := by
  cases ev with
  | submit task now len =>
      obtain ⟨hid, hclock, hnow, hcounter⟩ := hok
      simp only [step] at hstep
      split at hstep
      · cases hstep
        refine ⟨h.epoch, h.running.trans hclock, ?_⟩
        intro id hmem
        exact (h.issued id hmem).mono hclock (Or.inl ⟨rfl, le_rfl⟩)
      · obtain ⟨system, hsubmit, rfl⟩ := Option.map_eq_some_iff.mp hstep
        have hnext : s.nextID task now = Engine.generateID s.idCounter now := by
          rw [nextID, if_pos hid]
        rw [hnext] at hsubmit ⊢
        have hissued := submit_issued hid hsubmit
        have hsucc := toNat_succ hcounter
        have hrange : -2 ^ 63 ≤ now := h.epoch.trans (h.running.trans hclock)
        refine ⟨h.epoch, h.running.trans hclock, ?_⟩
        intro id hmem
        rw [show (⟨system, _, now, s.started⟩ : Numbered).system.issued = _ from hissued] at hmem
        rcases List.mem_cons.mp hmem with rfl | hold
        · refine ⟨now, s.idCounter.toNat + 1, ?_, le_rfl, Or.inr ?_⟩
          · simp only [Engine.generateID, Engine.unixNano_eq hrange hnow, hsucc]
          · exact hsucc.ge
        · refine (h.issued id hold).mono hclock (Or.inl ⟨rfl, ?_⟩)
          show s.idCounter.toNat ≤ (s.idCounter + 1).toNat
          rw [hsucc]
          exact Nat.le_succ _
  | other ev now =>
      obtain ⟨hsubmits, hclock, -, hrestart⟩ := hok
      obtain ⟨system, hsystem, rfl⟩ := Option.map_eq_some_iff.mp hstep
      have hissued := issued_other hsubmits hsystem
      split_ifs with hev
      · refine ⟨h.epoch.trans (h.running.trans hclock), le_rfl, ?_⟩
        intro id hmem
        rw [hissued] at hmem
        exact (h.issued id hmem).mono hclock (Or.inr (hrestart hev))
      · refine ⟨h.epoch, h.running.trans hclock, ?_⟩
        intro id hmem
        rw [hissued] at hmem
        exact (h.issued id hmem).mono hclock (Or.inl ⟨rfl, le_rfl⟩)

/--
Over any number of restarts, `generateID` never gives an ID out twice, if the tasks come without
IDs, the clock does not go back and fits an `int64`, a restart takes time and the counter does not
run over: in every state that the system reaches, the next generated ID is new, and so there is a
step for every `Submit` of a task without an ID.
-/
theorem generated_ids_always_new
    (cfg : Engine.Config) (now₀ : Time)
    (hepoch : -2 ^ 63 ≤ now₀)
    (es : List Event) (s : Numbered)
    (hrun : Run step Advancing (initial cfg now₀) es s)
    (task : Task) (now : Time) (len : Nat)
    (hok : s.Advancing (.submit task now len)) :
    (Engine.generateID s.idCounter now).2 ∉ s.system.issued ∧
      ∃ s', s.step (.submit task now len) = some s' := by
  have h : Told s := hrun.invariant Told step_told (told_initial cfg hepoch)
  obtain ⟨hid, hclock, hnow, hcounter⟩ := hok
  have hnew := h.generateID_new hclock hnow hcounter
  refine ⟨hnew, ?_⟩
  simp only [step, nextID, if_pos hid]
  split
  · exact ⟨_, rfl⟩
  · rw [System.submit, prepare_id s.system.engine _ now hid, if_neg hnew]
    exact ⟨_, rfl⟩

/-- A task, a crash, and a task in the next process with the same number. -/
def acrossRestart : List Event :=
  [.submit Task.zero 5 100, .other (.kill System.roomyConfig ["task_5_1"]) 6]

theorem generated_ids_always_new_acrossRestart :
    ∃ s, Run step Advancing (initial System.roomyConfig 5) acrossRestart s ∧
      (s.system.issued = ["task_5_1"] ∧ s.idCounter = 0 ∧
        (Engine.generateID s.idCounter 6).2 = "task_6_1") ∧
      ∃ s', s.step (.submit Task.zero 6 100) = some s' := by
  obtain ⟨s, hrun, hstate, hok⟩ :=
    Lib.exists_run_of_exec step Advancing
      (fun s => (s.system.issued = ["task_5_1"] ∧ s.idCounter = 0 ∧
        (Engine.generateID s.idCounter 6).2 = "task_6_1") ∧
        s.Advancing (.submit Task.zero 6 100))
      (initial System.roomyConfig 5) acrossRestart (by decide +kernel)
  exact ⟨s, hrun, hstate, (generated_ids_always_new System.roomyConfig 5 (by decide)
    acrossRestart s hrun Task.zero 6 100 hok).2⟩

end Numbered
end TaskQueue
