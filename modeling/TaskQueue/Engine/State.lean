import Mathlib.Tactic
import TaskQueue.Lib.Float64
import TaskQueue.Lib.GoMap
import TaskQueue.Queue.DelayedHeap
import TaskQueue.Queue.RingBuffer
import TaskQueue.Wal.Log
import TaskQueue.Wal.Snapshot

/-!
# The state of the engine

`Engine` of `internal/engine/engine.go`, with the part of the configuration that
its operations read, and the files of its directory.  The registry maps the ID
of a task to the task itself; wherever the Go code holds a pointer to a task
(ring buffer, heap, dead-letter queue) the model holds its ID, so that a write
through any of these pointers is a write to the registry.
-/

namespace TaskQueue

open Lib (GoMap)
open Queue
open Wal (Log LogEnv LogRecord Snapshot)

namespace Engine

/-- The settings that the engine reads, as `Config.Validate` accepts them. -/
structure Config where
  capacity : Nat
  overflowPolicy : OverflowPolicy
  maxRetries : Int
  defaultTimeout : Duration
  capacity_pos : 0 < capacity
  maxRetries_nonneg : 0 ≤ maxRetries

theorem Config.threeRetries_nonneg : (0 : Int) ≤ 3 := by
  decide

/-- The JSON object of an `EntryRetry`, as `applyEntry` reads it. -/
structure RetryData where
  error : Option String
  retryCount : Option Int
  nextAt : Option Int
deriving DecidableEq, Repr

/--
The `Data` of an entry, by what its readers get from the bytes: the text, the
task that `json.Unmarshal` gives, and the object of a retry.
-/
structure EntryData where
  text : String
  task : Option Task
  retry : Option RetryData
deriving DecidableEq, Repr

namespace EntryData

/-- No data. -/
def nil : EntryData where
  text := ""
  task := none
  retry := none

/-- `json.Marshal(task)`; the text is not read from an `EntryEnqueue`. -/
def ofTask (t : Task) : EntryData where
  text := ""
  task := some t
  retry := none

/-- `[]byte(execErr.Error())`. -/
def ofText (text : String) : EntryData where
  text := text
  task := none
  retry := none

/-- The object that `handleFailure` marshals; its numbers come back as `float64`. -/
def ofRetry (error : String) (retryCount : Int) (nextAt : Int) : EntryData where
  text := ""
  task := none
  retry :=
    some
      { error := some error
        retryCount := some (Lib.roundFloat64 retryCount)
        nextAt := some (Lib.roundFloat64 nextAt) }

end EntryData

/-- An entry of the engine's log. -/
abbrev Entry := Wal.Entry EntryData

/-- The files of the directory. -/
structure Disk where
  snapshot : Option Snapshot
  walBin : List (LogRecord EntryData)
  walOld : List (LogRecord EntryData)
deriving DecidableEq

/-- An empty directory. -/
def Disk.empty : Disk where
  snapshot := none
  walBin := []
  walOld := []

/-- `LastSeq` of the snapshot in the directory, zero when there is none. -/
def Disk.snapSeq (d : Disk) : Nat :=
  (d.snapshot.map Snapshot.lastSeq).getD 0

/-- The directory with one more record in the log. -/
def Disk.extend (d : Disk) (r : LogRecord EntryData) : Disk :=
  { d with walBin := d.walBin ++ [r] }

end Engine

/-- `Engine`. -/
structure Engine where
  cfg : Engine.Config
  walLog : Log
  buffer : RingBuffer TaskID
  heap : DelayedHeap
  tasks : GoMap TaskID Task
  idempKeys : GoMap String TaskID
  dlq : List TaskID

namespace Engine

/-- `New`, for settings that have been validated; the log is opened by `Recover`. -/
def new (cfg : Config) : Engine where
  cfg := cfg
  walLog := Log.opened.close
  buffer := RingBuffer.new cfg.capacity cfg.overflowPolicy cfg.capacity_pos
  heap := DelayedHeap.new
  tasks := GoMap.empty
  idempKeys := GoMap.empty
  dlq := []

/-- Write through the pointers to a task. -/
def updateTask (e : Engine) (id : TaskID) (f : Task → Task) : Engine :=
  { e with tasks := e.tasks.modify id f }

/-- `ScheduledAt` of the task an ID stands for. -/
def scheduledAt (e : Engine) (id : TaskID) : Time :=
  ((e.tasks.get id).map Task.scheduledAt).getD zeroTime

/-- The state of the task an ID stands for. -/
def stateOf (e : Engine) (id : TaskID) : Option TaskState :=
  (e.tasks.get id).map Task.state

/-- The task an ID stands for still has to run. -/
def live (e : Engine) (id : TaskID) : Bool :=
  (e.stateOf id).any TaskState.isLive

/-- `e.walLog.Append`: the engine, the files and whether it returned `nil`. -/
def append (e : Engine) (d : Disk) (type : Wal.EntryType) (id : TaskID)
    (data : EntryData) (io : LogEnv) : Engine × Disk × Bool :=
  let r := e.walLog.append d.walBin type id data io
  ({ e with walLog := r.1 }, { d with walBin := r.2.1 }, r.2.2)

/-- `e.heap.Push`. -/
def pushHeap (e : Engine) (id : TaskID) : Engine :=
  { e with heap := e.heap.push e.scheduledAt id }

/-- `e.heap.Remove`. -/
def removeHeap (e : Engine) (id : TaskID) : Engine :=
  { e with heap := (e.heap.remove e.scheduledAt id).2 }

/-- The engine after its log has given out the next number. -/
def nextLog (e : Engine) : Engine :=
  { e with walLog := { e.walLog with seq := e.walLog.seq + 1 } }

/-- An `Append` without I/O errors either cannot encode the record or writes it. -/
theorem append_noError
    {e : Engine}
    (hopen : e.walLog.closed = false)
    (d : Disk) (type : Wal.EntryType) (id : TaskID) (data : EntryData)
    (now : Time) (len : Nat) :
    e.append d type id data (LogEnv.noError now len) =
      if Wal.maxUint32 < len then
        (e, d, false)
      else
        (e.nextLog,
          d.extend (e.walLog.record type id data (LogEnv.noError now len)), true) := by
  by_cases hlen : Wal.maxUint32 < len
  · simp [append, Log.append, LogEnv.noError, hopen, hlen]
  · simp [append, Log.append, LogEnv.noError, hopen, hlen, nextLog, Disk.extend]

/-- An `Append` of a record that can be encoded, without I/O errors. -/
theorem append_noError_of_le
    {e : Engine} {len : Nat}
    (hopen : e.walLog.closed = false)
    (hlen : len ≤ Wal.maxUint32)
    (d : Disk) (type : Wal.EntryType) (id : TaskID) (data : EntryData)
    (now : Time) :
    e.append d type id data (LogEnv.noError now len) =
      (e.nextLog,
        d.extend (e.walLog.record type id data (LogEnv.noError now len)), true) := by
  rw [append_noError hopen, if_neg (by omega)]

/-- An `Append` leaves the snapshot alone. -/
theorem append_snapshot
    (e : Engine) (d : Disk) (type : Wal.EntryType) (id : TaskID) (data : EntryData)
    (io : LogEnv) :
    (e.append d type id data io).2.1.snapshot = d.snapshot := by
  rfl

/-- What an `Append` does to the files: nothing, or one more record. -/
theorem append_disk
    (e : Engine) (d : Disk) (type : Wal.EntryType) (id : TaskID) (data : EntryData)
    (io : LogEnv) :
    (e.append d type id data io).2.1 = d ∨
      (e.append d type id data io).2.1 = d.extend (e.walLog.record type id data io) := by
  unfold append Log.append
  dsimp only
  split_ifs
  · exact Or.inl rfl
  · cases io.outcome
    · exact Or.inr rfl
    · exact Or.inl rfl
    · exact Or.inl rfl
    · exact Or.inr rfl

/-- The directory is as before, or its log has one more record, with the given property. -/
def Disk.Grows (R : LogRecord EntryData → Prop) (d d' : Disk) : Prop :=
  d' = d ∨ ∃ r, R r ∧ d' = d.extend r

theorem grows_append
    {R : LogRecord EntryData → Prop} {e : Engine} {type : Wal.EntryType} {id : TaskID}
    {data : EntryData} {io : LogEnv}
    (h : R (e.walLog.record type id data io))
    (d : Disk) :
    Disk.Grows R d (e.append d type id data io).2.1 :=
  (append_disk e d type id data io).imp_right fun hd => ⟨_, h, hd⟩

/-- An `Append` writes nothing and fails, or writes the record to an open log. -/
theorem append_cases
    (e : Engine) (d : Disk) (type : Wal.EntryType) (id : TaskID) (data : EntryData)
    (io : LogEnv) :
    ((e.append d type id data io).2.1 = d ∧ (e.append d type id data io).2.2 = false ∧
      e.walLog.seq ≤ (e.append d type id data io).1.walLog.seq) ∨
    (e.walLog.closed = false ∧
      (e.append d type id data io).2.1 = d.extend (e.walLog.record type id data io) ∧
      (e.append d type id data io).1.walLog.seq = e.walLog.seq + 1) := by
  unfold append Log.append
  dsimp only
  split_ifs with hrefused
  · exact Or.inl ⟨rfl, rfl, le_rfl⟩
  · have hopen : e.walLog.closed = false := by
      simp only [Bool.or_eq_true, not_or] at hrefused
      simpa using hrefused.1
    cases io.outcome
    · exact Or.inr ⟨hopen, rfl, rfl⟩
    · exact Or.inl ⟨rfl, rfl, le_rfl⟩
    · exact Or.inl ⟨rfl, rfl, Nat.le_succ _⟩
    · exact Or.inr ⟨hopen, rfl, rfl⟩

/-- An `Append` that gets its record into the file; it returns `nil` unless the fsync fails. -/
theorem append_of_writes
    {e : Engine} {io : LogEnv}
    (h : e.walLog.Writes io)
    (d : Disk) (type : Wal.EntryType) (id : TaskID) (data : EntryData) :
    e.append d type id data io =
      (e.nextLog, d.extend (e.walLog.record type id data io), decide (io.outcome = .ok)) := by
  obtain ⟨hopen, hlen, hok | hsync⟩ := h
  · simp [append, Log.append, nextLog, Disk.extend, hopen, Nat.not_lt.mpr hlen, hok]
  · simp [append, Log.append, nextLog, Disk.extend, hopen, Nat.not_lt.mpr hlen, hsync]

/-- Any other `Append` fails and leaves the files alone. -/
theorem append_of_not_writes
    {e : Engine} {io : LogEnv}
    (h : ¬ e.walLog.Writes io)
    (d : Disk) (type : Wal.EntryType) (id : TaskID) (data : EntryData) :
    ∃ w, e.append d type id data io = ({ e with walLog := w }, d, false) := by
  unfold append Log.append
  dsimp only
  split_ifs with hrefused
  · exact ⟨e.walLog, rfl⟩
  · simp only [Bool.or_eq_true, decide_eq_true_eq, not_or, Bool.not_eq_true, not_lt] at hrefused
    cases hio : io.outcome with
    | ok =>
        exact absurd ⟨hrefused.1, hrefused.2, Or.inl hio⟩ h
    | unsynced =>
        exact absurd ⟨hrefused.1, hrefused.2, Or.inr hio⟩ h
    | unwritten =>
        exact ⟨_, rfl⟩
    | torn =>
        exact ⟨_, rfl⟩

section Append

variable (e : Engine) (d : Disk) (type : Wal.EntryType) (id : TaskID) (data : EntryData)
  (io : LogEnv)

@[simp] theorem append_buffer : (e.append d type id data io).1.buffer = e.buffer := by
  rfl

@[simp] theorem append_heap : (e.append d type id data io).1.heap = e.heap := by
  rfl

@[simp] theorem append_tasks : (e.append d type id data io).1.tasks = e.tasks := by
  rfl

@[simp] theorem append_stateOf (j : TaskID) :
    (e.append d type id data io).1.stateOf j = e.stateOf j := by
  rfl

@[simp] theorem append_closed :
    (e.append d type id data io).1.walLog.closed = e.walLog.closed := by
  unfold append Log.append
  dsimp only
  split_ifs
  · rfl
  · cases io.outcome <;> rfl

end Append

@[simp] theorem updateTask_buffer
    (e : Engine) (id : TaskID) (f : Task → Task) :
    (e.updateTask id f).buffer = e.buffer := by
  rfl

@[simp] theorem updateTask_heap
    (e : Engine) (id : TaskID) (f : Task → Task) :
    (e.updateTask id f).heap = e.heap := by
  rfl

theorem get_updateTask
    (e : Engine) (id j : TaskID) (f : Task → Task) :
    (e.updateTask id f).tasks.get j =
      if j = id then (e.tasks.get id).map f else e.tasks.get j := by
  exact GoMap.get_modify e.tasks id j f

theorem get_updateTask_of_ne
    (e : Engine) {id j : TaskID} (f : Task → Task)
    (h : j ≠ id) :
    (e.updateTask id f).tasks.get j = e.tasks.get j := by
  exact GoMap.get_modify_of_ne e.tasks f h

@[simp] theorem get_updateTask_self
    (e : Engine) (id : TaskID) (f : Task → Task) :
    (e.updateTask id f).tasks.get id = (e.tasks.get id).map f := by
  exact GoMap.get_modify_self e.tasks id f

theorem stateOf_updateTask_of_ne
    (e : Engine) {id j : TaskID} (f : Task → Task)
    (h : j ≠ id) :
    (e.updateTask id f).stateOf j = e.stateOf j := by
  rw [stateOf, get_updateTask_of_ne e f h, stateOf]

/-- An update that leaves every task as it is changes nothing. -/
theorem updateTask_id
    (e : Engine) (id : TaskID) :
    e.updateTask id (fun t => t) = e := by
  have htasks : e.tasks.modify id (fun t => t) = e.tasks := by
    apply GoMap.ext
    intro j
    rw [GoMap.get_modify]
    split_ifs with hj
    · rw [hj, Option.map_id_fun']
      rfl
    · rfl
  unfold updateTask
  rw [htasks]

/-- The state of `id`, and of no other task, is set. -/
def SetsState (e : Engine) (id : TaskID) (state : TaskState) (e' : Engine) : Prop :=
  ∀ j, e'.stateOf j = if j = id then (e.stateOf id).map (fun _ => state) else e.stateOf j

theorem setsState_updateTask
    (e : Engine) (id : TaskID) {f : Task → Task} {state : TaskState}
    (hf : ∀ t, (f t).state = state) :
    SetsState e id state (e.updateTask id f) := by
  intro j
  unfold stateOf
  rw [get_updateTask]
  split_ifs with hj
  · cases e.tasks.get id with
    | none =>
        rfl
    | some t =>
        simp [hf t]
  · rfl

section SetsState

variable {e e' : Engine} {id j : TaskID} {state : TaskState}

theorem SetsState.of_ne
    (h : SetsState e id state e')
    (hj : j ≠ id) :
    e'.stateOf j = e.stateOf j := by
  rw [h j, if_neg hj]

theorem SetsState.self
    (h : SetsState e id state e')
    (hreg : (e.tasks.get id).isSome = true) :
    e'.stateOf id = some state := by
  obtain ⟨t, ht⟩ := Option.isSome_iff_exists.mp hreg
  rw [h id, if_pos rfl, stateOf, ht]
  rfl

theorem SetsState.of_some
    {x : TaskState}
    (h : SetsState e id state e')
    (hx : e'.stateOf id = some x) :
    (e.tasks.get id).isSome = true ∧ x = state := by
  have hself := h id
  rw [if_pos rfl, hx] at hself
  obtain ⟨y, hy, hstate⟩ := Option.map_eq_some_iff.mp hself.symm
  obtain ⟨t, ht, -⟩ := Option.map_eq_some_iff.mp hy
  exact ⟨by rw [ht]; rfl, hstate.symm⟩

theorem SetsState.same_or
    (h : SetsState e id state e')
    (j : TaskID) :
    e'.stateOf j = e.stateOf j ∨ (j = id ∧ e'.stateOf j = some state) := by
  by_cases hj : j = id
  · subst hj
    rw [h j, if_pos rfl]
    cases e.stateOf j with
    | none =>
        exact Or.inl rfl
    | some x =>
        exact Or.inr ⟨rfl, rfl⟩
  · exact Or.inl (h.of_ne hj)

end SetsState

@[simp] theorem pushHeap_tasks
    (e : Engine) (id : TaskID) :
    (e.pushHeap id).tasks = e.tasks := by
  rfl

@[simp] theorem pushHeap_buffer
    (e : Engine) (id : TaskID) :
    (e.pushHeap id).buffer = e.buffer := by
  rfl

@[simp] theorem removeHeap_buffer
    (e : Engine) (id : TaskID) :
    (e.removeHeap id).buffer = e.buffer := by
  rfl

/-- A push of a task that is not on the heap keeps the positions right. -/
theorem pushHeap_indexed
    {e : Engine} {id : TaskID}
    (hi : e.heap.Indexed)
    (hid : id ∉ e.heap.inner) :
    (e.pushHeap id).heap.Indexed := by
  exact (Lib.IndexedHeap.push_spec e.scheduledAt e.heap id).2.1 hid hi

/-- A removal leaves the heap as it is, or takes its target out. -/
theorem removeHeap_cases
    (e : Engine) (id : TaskID) :
    (e.removeHeap id).heap = e.heap ∨
      ∃ a, e.heap.target id = some a ∧
        Lib.IndexedHeap.Taken e.heap a (e.removeHeap id).heap := by
  have hspec := DelayedHeap.remove_spec e.scheduledAt e.heap id
  unfold removeHeap
  cases htarget : e.heap.target id with
  | none =>
      rw [htarget] at hspec
      rw [hspec]
      exact Or.inl rfl
  | some a =>
      rw [htarget] at hspec
      exact Or.inr ⟨a, rfl, hspec.2⟩

/-- A removal takes one task out at most. -/
theorem removeHeap_sublist
    (e : Engine) (id : TaskID) :
    (e.removeHeap id).heap.inner.Subperm e.heap.inner := by
  rcases removeHeap_cases e id with hsame | ⟨a, -, htaken⟩
  · rw [hsame]
  · exact (List.sublist_cons_self a _).subperm.trans htaken.perm.subperm

/-- A removal leaves all tasks but its target. -/
theorem mem_removeHeap
    (e : Engine) (id : TaskID) {j : TaskID}
    (hj : j ∈ e.heap.inner) :
    j ∈ (e.removeHeap id).heap.inner ∨ e.heap.target id = some j := by
  rcases removeHeap_cases e id with hsame | ⟨a, htarget, htaken⟩
  · rw [hsame]
    exact Or.inl hj
  · rcases List.mem_cons.mp (htaken.perm.mem_iff.mpr hj) with hja | hleft
    · rw [hja]
      exact Or.inr htarget
    · exact Or.inl hleft

theorem removeHeap_indexed
    {e : Engine} {id : TaskID}
    (hi : e.heap.Indexed) :
    (e.removeHeap id).heap.Indexed := by
  rcases removeHeap_cases e id with hsame | ⟨a, -, htaken⟩
  · rw [hsame]
    exact hi
  · exact htaken.indexed hi

/-- After its removal a task is not on the heap, whether it was or not. -/
theorem notMem_removeHeap
    {e : Engine} {id : TaskID}
    (hi : e.heap.Indexed)
    (hone : e.heap.inner.count id ≤ 1) :
    id ∉ (e.removeHeap id).heap.inner := by
  by_cases hid : id ∈ e.heap.inner
  · have hspec := DelayedHeap.remove_spec e.scheduledAt e.heap id
    rw [DelayedHeap.target_of_mem hi hid] at hspec
    have hcount := hspec.2.perm.count_eq id
    rw [List.count_cons_self] at hcount
    rw [← List.count_eq_zero]
    show (e.heap.remove e.scheduledAt id).2.inner.count id = 0
    omega
  · intro hmem
    exact hid ((removeHeap_sublist e id).subset hmem)

/-- The heap after a push, as a multiset. -/
theorem pushHeap_perm
    (e : Engine) (id : TaskID) :
    (e.pushHeap id).heap.inner.Perm (id :: e.heap.inner) := by
  exact (Lib.IndexedHeap.push_spec e.scheduledAt e.heap id).1

end Engine
end TaskQueue
