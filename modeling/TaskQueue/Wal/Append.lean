import TaskQueue.Lib.Runs
import TaskQueue.Wal.Record

/-!
# Appending to the log under I/O failures

`WAL.Append` of `internal/wal/wal.go` on the bytes of the file, with the
buffered writer of `bufio` between the two.  Every call to the operating system
has an arbitrary outcome: a `Write` may hand over only some of its bytes before
it fails, an `fsync` may fail, and the encoder may fail.

The machine of the second half takes appends and process kills, each kill being
followed by `Replay`, `Open` and `SetSeq` as in `Engine.Recover`.  The invariant
(`Intact`) is that the file is a list of whole records with consecutive numbers,
possibly followed by one record that is cut short; as long as it is cut short
the writer refuses all further writes.  `appends_recoverable` reads off what
every replay delivers.
-/

namespace TaskQueue
namespace Wal

open Lib

universe u

/-- The outcome of one `Write` on the file: all bytes, or an error after the first `n`. -/
inductive OsWrite
  | full
  | short (n : Nat)
deriving DecidableEq

/-- The size of the write buffer. -/
def bufSize : Nat := 64 * 1024

/-- `bufio.Writer`: the bytes not yet handed to the file, and the sticky error. -/
structure BufWriter where
  buf : Bytes
  err : Bool
deriving DecidableEq

namespace BufWriter

/-- A writer without pending bytes. -/
def empty : BufWriter := ⟨[], false⟩

/-- A write that bypasses the buffer. -/
def direct (file p : Bytes) : OsWrite → BufWriter × Bytes × Bool
  | .full => (empty, file ++ p, true)
  | .short n => (⟨[], true⟩, file ++ p.take n, false)

/-- `Writer.Flush`. -/
def flush (w : BufWriter) (file : Bytes) (o : OsWrite) : BufWriter × Bytes × Bool :=
  if w.err then
    (w, file, false)
  else if w.buf = [] then
    (w, file, true)
  else
    match o with
    | .full => (empty, file ++ w.buf, true)
    | .short n => (⟨w.buf.drop n, true⟩, file ++ w.buf.take n, false)

/-- `Writer.Write`: what does not fit the buffer first fills and flushes it. -/
def write (w : BufWriter) (file p : Bytes) (fill rest : OsWrite) :
    BufWriter × Bytes × Bool :=
  if w.err then
    (w, file, false)
  else if p.length ≤ bufSize - w.buf.length then
    (⟨w.buf ++ p, false⟩, file, true)
  else if w.buf = [] then
    direct file p rest
  else
    match
      flush ⟨w.buf ++ p.take (bufSize - w.buf.length), false⟩ file fill with
    | (w', file', false) => (w', file', false)
    | (_, file', true) =>
        if (p.drop (bufSize - w.buf.length)).length ≤ bufSize then
          (⟨p.drop (bufSize - w.buf.length), false⟩, file', true)
        else
          direct file' (p.drop (bufSize - w.buf.length)) rest

end BufWriter

/-- `SyncPolicy`. -/
inductive SyncPolicy
  | every
  | batch
  | none
deriving DecidableEq

/-- `ParseSyncPolicy`. -/
def parseSyncPolicy (s : String) : SyncPolicy :=
  if s = "batch" then .batch else if s = "none" then .none else .every

/-- `WAL`: an open log. -/
structure LogHandle where
  seq : Nat
  writer : BufWriter
  closed : Bool
  policy : SyncPolicy
deriving DecidableEq

/-- Why an `Append` failed. -/
inductive AppendError
  | closed
  | encode
  | write
  | flush
  | sync
deriving DecidableEq

/-- The texts of the errors of `Append`, with the text of the error that is wrapped. -/
def AppendError.message (cause : String) : AppendError → String
  | .closed => "wal: log is closed"
  | .encode => "wal: encode: " ++ cause
  | .write => "wal: write: " ++ cause
  | .flush => "wal: flush: " ++ cause
  | .sync => "wal: sync: " ++ cause

/-- The outcomes of the fallible calls inside one `Append`. -/
structure AppendIO where
  encode : Bool
  fill : OsWrite
  rest : OsWrite
  flush : OsWrite
  sync : Bool

section Append

variable {δ : Type u}

namespace LogHandle

/-- `Open`, on the whole file. -/
def opened (policy : SyncPolicy) : LogHandle where
  seq := 0
  writer := BufWriter.empty
  closed := false
  policy := policy

/-- `WAL.SetSeq`. -/
def setSeq (w : LogHandle) (seq : Nat) : LogHandle :=
  { w with seq := seq }

/-- The number that the next entry gets: `w.seq++` on a `uint64`. -/
def nextSeq (w : LogHandle) : Nat :=
  (w.seq + 1) % 2 ^ 64

/-- The entry with the number and the timestamp that `Append` gives it. -/
def stamp (w : LogHandle) (entry : Entry δ) (now : Int) : Entry δ :=
  { entry with
    seq := w.nextSeq
    timestamp := if entry.timestamp = 0 then now else entry.timestamp }

/-- `encodeRecord` inside `Append`, which may fail for reasons of its own. -/
def encoded (J : EntryJson δ) (w : LogHandle) (entry : Entry δ) (now : Int)
    (io : AppendIO) : Option Bytes :=
  if io.encode then encodeRecord J (w.stamp entry now) else none

/-- The end of `Append`, after the record is in the buffer. -/
def finish (w : LogHandle) (file : Bytes) (io : AppendIO) :
    LogHandle × Bytes × Except AppendError Nat :=
  if w.policy = .every then
    match w.writer.flush file io.flush with
    | (wr, file', false) => ({ w with writer := wr }, file', .error .flush)
    | (wr, file', true) =>
        if io.sync then
          ({ w with writer := wr }, file', .ok w.seq)
        else
          ({ w with writer := wr }, file', .error .sync)
  else
    (w, file, .ok w.seq)

/-- `WAL.Append`: the handle, the file and the result. -/
def append (J : EntryJson δ) (w : LogHandle) (file : Bytes) (entry : Entry δ)
    (now : Int) (io : AppendIO) :
    LogHandle × Bytes × Except AppendError Nat :=
  if w.closed then
    (w, file, .error .closed)
  else
    match w.encoded J entry now io with
    | none => (w, file, .error .encode)
    | some buf =>
        match w.writer.write file buf io.fill io.rest with
        | (wr, file', false) => ({ w with writer := wr }, file', .error .write)
        | (wr, file', true) =>
            { w with writer := wr, seq := w.nextSeq }.finish file' io

end LogHandle

/-- The log of one directory, the process that writes it and the `Append` calls so far. -/
structure LogSystem (δ : Type u) where
  file : Bytes
  wal : LogHandle
  attempts : List (Entry δ × Bool)

/-- A call of `Append`, a kill during such a call, and a kill between calls. -/
inductive LogEvent (δ : Type u) where
  | append (entry : Entry δ) (now : Int) (io : AppendIO)
  | killedIn (entry : Entry δ) (now : Int) (io : AppendIO)
  | kill

namespace LogSystem

/-- A log opened with `SyncEvery` in an empty directory. -/
def start : LogSystem δ where
  file := []
  wal := LogHandle.opened .every
  attempts := []

/--
A call of `Append` and its place in the list of attempts; a call that the
process does not survive (`alive = false`) has not returned.
-/
def append (J : EntryJson δ) (s : LogSystem δ) (entry : Entry δ) (now : Int)
    (io : AppendIO) (alive : Bool) : LogSystem δ where
  file := (s.wal.append J s.file entry now io).2.1
  wal := (s.wal.append J s.file entry now io).1
  attempts :=
    s.attempts ++
      [(s.wal.stamp entry now,
        alive && (s.wal.append J s.file entry now io).2.2.isOk)]

/-- `Replay`, `Open` and `SetSeq` after a kill; `none` if `Replay` fails. -/
def reopen (J : EntryJson δ) (s : LogSystem δ) : Option (LogSystem δ) :=
  match replay J collect [] s.file with
  | (.error _, _) => none
  | (.ok (_, lastSeq), file) =>
      some
        { s with
          file := file
          wal :=
            if 0 < lastSeq then (LogHandle.opened s.wal.policy).setSeq lastSeq
            else LogHandle.opened s.wal.policy }

/-- The transitions of the log. -/
def step (J : EntryJson δ) (s : LogSystem δ) : LogEvent δ → Option (LogSystem δ)
  | .append entry now io => some (s.append J entry now io true)
  | .killedIn entry now io => (s.append J entry now io false).reopen J
  | .kill => s.reopen J

/--
What every append has to respect: the body of its record is at most 64 MiB, and
offsets in a file are `int64`.
-/
def WithinLimits (J : EntryJson δ) (s : LogSystem δ) (entry : Entry δ) (now : Int)
    (io : AppendIO) : Prop :=
  (∀ rec ∈ encodeRecord J (s.wal.stamp entry now),
    rec.length ≤ headerSize + maxBody) ∧
  (s.wal.append J s.file entry now io).2.1.length < 2 ^ 63

/-- The runs that are considered. -/
def Legal (J : EntryJson δ) (s : LogSystem δ) : LogEvent δ → Prop
  | .append entry now io => s.WithinLimits J entry now io
  | .killedIn entry now io => s.WithinLimits J entry now io
  | .kill => True

instance (J : EntryJson δ) (s : LogSystem δ) (entry : Entry δ) (now : Int)
    (io : AppendIO) : Decidable (s.WithinLimits J entry now io) :=
  inferInstanceAs (Decidable (_ ∧ _))

instance (J : EntryJson δ) (s : LogSystem δ) (e : LogEvent δ) :
    Decidable (s.Legal J e) :=
  match e with
  | .append entry now io => inferInstanceAs (Decidable (s.WithinLimits J entry now io))
  | .killedIn entry now io => inferInstanceAs (Decidable (s.WithinLimits J entry now io))
  | .kill => inferInstanceAs (Decidable True)

/--
`Replay` succeeds and delivers a part of the attempts, in their order, that has
every attempt that returned `nil`; the delivered numbers are 1, 2, 3, and so on.
-/
def Recoverable (J : EntryJson δ) (s : LogSystem δ) : Prop :=
  ∃ (delivered : List (Entry δ × Bool)) (lastSeq : Nat) (file : Bytes),
    replay J collect [] s.file = (.ok (delivered.map Prod.fst, lastSeq), file) ∧
    delivered.Sublist s.attempts ∧
    (s.attempts.filter Prod.snd).Sublist delivered ∧
    delivered.map (fun a => a.1.seq) = List.range' 1 delivered.length

end LogSystem

namespace LogHandle

/-- After its first error the writer takes nothing any more. -/
theorem append_refused
    (J : EntryJson δ) {w : LogHandle}
    (herr : w.writer.err = true)
    (file : Bytes) (entry : Entry δ) (now : Int) (io : AppendIO) :
    ∃ r : Except AppendError Nat,
      w.append J file entry now io = (w, file, r) ∧ r.isOk = false := by
  unfold append
  split_ifs
  · exact ⟨_, rfl, rfl⟩
  · cases w.encoded J entry now io with
    | none =>
        exact ⟨_, rfl, rfl⟩
    | some buf =>
        simp only [BufWriter.write, herr, if_true]
        exact ⟨_, rfl, rfl⟩

/-- A record that fits the empty buffer is buffered; a larger one goes to the file at once. -/
theorem write_empty
    (file p : Bytes) (fill rest : OsWrite) :
    BufWriter.empty.write file p fill rest =
      if p.length ≤ bufSize then (⟨p, false⟩, file, true)
      else BufWriter.direct file p rest := by
  simp [BufWriter.write, BufWriter.empty]

/--
What an `Append` under `SyncEvery` does to the file when nothing is pending: the
encoder fails and nothing happens, or a part of the record reaches the file.  If
no error sticks to the writer, the part is the whole record.
-/
theorem append_effect
    (J : EntryJson δ) {w : LogHandle}
    (hclosed : w.closed = false)
    (hpolicy : w.policy = .every)
    (hwriter : w.writer = BufWriter.empty)
    (file : Bytes) (entry : Entry δ) (now : Int) (io : AppendIO) :
    w.append J file entry now io = (w, file, .error .encode) ∨
    ∃ (rec : Bytes) (k : Nat) (w' : LogHandle) (r : Except AppendError Nat),
      encodeRecord J (w.stamp entry now) = some rec ∧
      w.append J file entry now io = (w', file ++ rec.take k, r) ∧
      w'.closed = false ∧ w'.policy = .every ∧
      ((w'.writer.err = true ∧ r.isOk = false) ∨
        (rec.length ≤ k ∧ w'.writer = BufWriter.empty ∧ w'.seq = w.nextSeq)) := by
  unfold append
  simp only [hclosed, Bool.false_eq_true, if_false]
  cases henc : w.encoded J entry now io with
  | none =>
      exact Or.inl rfl
  | some rec =>
      right
      have hrec : encodeRecord J (w.stamp entry now) = some rec := by
        unfold encoded at henc
        split_ifs at henc
        exact henc
      simp only [hwriter, write_empty]
      by_cases hfits : rec.length ≤ bufSize
      · -- the record waits in the buffer for the flush
        simp only [hfits, if_true, finish, hpolicy, BufWriter.flush, Bool.false_eq_true,
          if_false]
        by_cases hnil : rec = []
        · refine ⟨rec, rec.length, ?_⟩
          simp only [hnil, if_true, List.length_nil, List.take_nil, List.append_nil]
          split_ifs
          · exact ⟨_, _, by rw [hrec, hnil], rfl, rfl, rfl,
              Or.inr ⟨Nat.le_refl _, rfl, rfl⟩⟩
          · exact ⟨_, _, by rw [hrec, hnil], rfl, rfl, rfl,
              Or.inr ⟨Nat.le_refl _, rfl, rfl⟩⟩
        · simp only [hnil, if_false]
          cases io.flush with
          | full =>
              refine ⟨rec, rec.length, ?_⟩
              rw [List.take_length]
              split_ifs
              · exact ⟨_, _, hrec, rfl, rfl, rfl, Or.inr ⟨Nat.le_refl _, rfl, rfl⟩⟩
              · exact ⟨_, _, hrec, rfl, rfl, rfl, Or.inr ⟨Nat.le_refl _, rfl, rfl⟩⟩
          | short n =>
              exact ⟨rec, n, _, _, hrec, rfl, rfl, rfl, Or.inl ⟨rfl, rfl⟩⟩
      · simp only [hfits, if_false]
        cases io.rest with
        | full =>
            refine ⟨rec, rec.length, ?_⟩
            rw [List.take_length]
            simp only [BufWriter.direct, finish, hpolicy, BufWriter.flush,
              BufWriter.empty, if_true, Bool.false_eq_true, if_false]
            split_ifs
            · exact ⟨_, _, hrec, rfl, rfl, rfl, Or.inr ⟨Nat.le_refl _, rfl, rfl⟩⟩
            · exact ⟨_, _, hrec, rfl, rfl, rfl, Or.inr ⟨Nat.le_refl _, rfl, rfl⟩⟩
        | short n =>
            exact ⟨rec, n, _, _, hrec, rfl, rfl, hpolicy, Or.inl ⟨rfl, rfl⟩⟩

end LogHandle

namespace LogSystem

/-- A record cut short. -/
def Torn (J : EntryJson δ) (torn : Bytes) : Prop :=
  torn = [] ∨
    ∃ (e : Entry δ) (rec : Bytes) (k : Nat),
      Recorded J e rec ∧ k < rec.length ∧ torn = rec.take k

/--
The file holds the records `recs` of the attempts `kept`, with consecutive
numbers, and at most one record that is cut short; then the writer has failed.
-/
structure Intact (J : EntryJson δ) (s : LogSystem δ)
    (kept : List (Entry δ × Bool)) (recs : List Bytes) (torn : Bytes) : Prop where
  sub : kept.Sublist s.attempts
  acked : (s.attempts.filter Prod.snd).Sublist kept
  recorded : List.Forall₂ (Recorded J) (kept.map Prod.fst) recs
  numbers : kept.map (fun a => a.1.seq) = List.range' 1 kept.length
  file : s.file = recs.flatten ++ torn
  tail : Torn J torn
  size : s.file.length < 2 ^ 63
  isOpen : s.wal.closed = false
  policy : s.wal.policy = .every
  ready : s.wal.writer.err = false →
    torn = [] ∧ s.wal.writer = BufWriter.empty ∧ s.wal.seq = kept.length

/-- Every record takes space, so the file bounds the number of records. -/
theorem length_le_of_recorded
    {J : EntryJson δ} {es : List (Entry δ)} {recs : List Bytes}
    (h : List.Forall₂ (Recorded J) es recs) :
    es.length ≤ recs.flatten.length := by
  induction h with
  | nil =>
      simp
  | cons hrec _ ih =>
      have := hrec.length_ge
      simp only [headerSize, magicSize, lenSize] at this
      simp only [List.length_cons, List.flatten_cons, List.length_append]
      omega

/-- The last of the numbers 1, 2, 3, ... is their count. -/
theorem lastSeqOf_numbers
    {kept : List (Entry δ × Bool)}
    (h : kept.map (fun a => a.1.seq) = List.range' 1 kept.length) :
    lastSeqOf (kept.map Prod.fst) 0 = kept.length := by
  have hlast :
      ((kept.map Prod.fst).getLast?.map Entry.seq) =
        (kept.map (fun a => a.1.seq)).getLast? := by
    simp [List.getLast?_map, Function.comp_def]
  unfold lastSeqOf
  rw [hlast, h, List.getLast?_range']
  split_ifs with h0
  · simp [h0]
  · simp

theorem intact_start
    (J : EntryJson δ) :
    Intact J (start : LogSystem δ) [] [] [] where
  sub := List.Sublist.refl _
  acked := List.Sublist.refl _
  recorded := List.Forall₂.nil
  numbers := rfl
  file := rfl
  tail := Or.inl rfl
  size := by simp [start]
  isOpen := rfl
  policy := rfl
  ready := fun _ => ⟨rfl, rfl, rfl⟩

/-- `Replay` of an intact file delivers what was kept and leaves the whole records. -/
theorem Intact.replay
    {J : EntryJson δ} {s : LogSystem δ}
    {kept : List (Entry δ × Bool)} {recs : List Bytes} {torn : Bytes}
    (h : Intact J s kept recs torn) :
    Wal.replay J collect [] s.file =
      (.ok (kept.map Prod.fst, kept.length), recs.flatten) := by
  have hfold : (kept.map Prod.fst).foldlM collect ([] : List (Entry δ)) =
      .ok (kept.map Prod.fst) := by
    simpa using foldlM_collect (kept.map Prod.fst) []
  rw [h.file, ← lastSeqOf_numbers h.numbers]
  rcases h.tail with rfl | ⟨e, rec, k, hrec, hk, rfl⟩
  · rw [List.append_nil]
    exact replay_records h.recorded hfold
  · exact replay_records_torn h.recorded hrec hk hfold

theorem Intact.recoverable
    {J : EntryJson δ} {s : LogSystem δ}
    {kept : List (Entry δ × Bool)} {recs : List Bytes} {torn : Bytes}
    (h : Intact J s kept recs torn) :
    s.Recoverable J :=
  ⟨kept, kept.length, recs.flatten, h.replay, h.sub, h.acked, h.numbers⟩

/-- After a kill the log opens again, and nothing that was kept is lost. -/
theorem Intact.reopen
    {J : EntryJson δ} {s s' : LogSystem δ}
    {kept : List (Entry δ × Bool)} {recs : List Bytes} {torn : Bytes}
    (h : Intact J s kept recs torn)
    (hs' : s.reopen J = some s') :
    Intact J s' kept recs [] := by
  unfold LogSystem.reopen at hs'
  rw [h.replay] at hs'
  cases hs'
  have hseq :
      (if 0 < kept.length then
          (LogHandle.opened s.wal.policy).setSeq kept.length
        else LogHandle.opened s.wal.policy) =
        { LogHandle.opened s.wal.policy with seq := kept.length } := by
    split_ifs with h0
    · rfl
    · have : kept.length = 0 := by
        omega
      rw [this]
      rfl
  have hsize : recs.flatten.length < 2 ^ 63 := by
    have := h.size
    rw [h.file, List.length_append] at this
    omega
  rw [hseq]
  exact
    { sub := h.sub
      acked := h.acked
      recorded := h.recorded
      numbers := h.numbers
      file := (List.append_nil _).symm
      tail := Or.inl rfl
      size := hsize
      isOpen := rfl
      policy := h.policy
      ready := fun _ => ⟨rfl, rfl, rfl⟩ }

/-- An attempt that fails adds nothing to those that returned `nil`. -/
theorem acked_append_of_error
    {J : EntryJson δ} {s : LogSystem δ} {entry : Entry δ} {now : Int} {io : AppendIO}
    (hr : (s.wal.append J s.file entry now io).2.2.isOk = false)
    {alive : Bool} :
    (s.append J entry now io alive).attempts.filter Prod.snd = s.attempts.filter Prod.snd := by
  simp only [LogSystem.append, hr, Bool.and_false, List.filter_append, List.filter_cons,
    List.filter_nil, Bool.false_eq_true, if_false, List.append_nil]

/-- An attempt that changes nothing on disk and does not succeed. -/
theorem Intact.unchanged
    {J : EntryJson δ} {s : LogSystem δ}
    {kept : List (Entry δ × Bool)} {recs : List Bytes} {torn : Bytes}
    (h : Intact J s kept recs torn)
    {entry : Entry δ} {now : Int} {io : AppendIO}
    {r : Except AppendError Nat}
    (happ : s.wal.append J s.file entry now io = (s.wal, s.file, r))
    (hr : r.isOk = false)
    (alive : Bool) :
    Intact J (s.append J entry now io alive) kept recs torn where
  sub := h.sub.trans (List.sublist_append_left _ _)
  acked := by
    rw [acked_append_of_error (by rw [happ]; exact hr)]
    exact h.acked
  recorded := h.recorded
  numbers := h.numbers
  file := by simpa only [LogSystem.append, happ] using h.file
  tail := h.tail
  size := by simpa only [LogSystem.append, happ] using h.size
  isOpen := by simpa only [LogSystem.append, happ] using h.isOpen
  policy := by simpa only [LogSystem.append, happ] using h.policy
  ready := by simpa only [LogSystem.append, happ] using h.ready

/-- An attempt whose whole record reaches the file is kept, whatever it returns. -/
theorem Intact.extended
    {J : EntryJson δ} {s : LogSystem δ}
    {kept : List (Entry δ × Bool)} {recs : List Bytes}
    (h : Intact J s kept recs [])
    (hseq : s.wal.seq = kept.length)
    {entry : Entry δ} {now : Int} {io : AppendIO}
    {w : LogHandle} {rec : Bytes} {r : Except AppendError Nat}
    (happ : s.wal.append J s.file entry now io = (w, s.file ++ rec, r))
    (hrec : Recorded J (s.wal.stamp entry now) rec)
    (hsize : (s.file ++ rec).length < 2 ^ 63)
    (hclosed : w.closed = false) (hpolicy : w.policy = .every)
    (hready : w.writer.err = false →
      w.writer = BufWriter.empty ∧ w.seq = s.wal.nextSeq)
    (alive : Bool) :
    Intact J (s.append J entry now io alive)
      (kept ++ [(s.wal.stamp entry now, alive && r.isOk)]) (recs ++ [rec]) [] := by
  have hnext : s.wal.nextSeq = kept.length + 1 := by
    have hle := length_le_of_recorded h.recorded
    have hlt := h.size
    rw [h.file, List.append_nil] at hlt
    rw [List.length_map] at hle
    unfold LogHandle.nextSeq
    rw [hseq]
    exact Nat.mod_eq_of_lt (by omega)
  exact
    { sub := by
        simp only [LogSystem.append, happ]
        exact List.Sublist.append h.sub (List.Sublist.refl _)
      acked := by
        simp only [LogSystem.append, happ, List.filter_append]
        exact List.Sublist.append h.acked List.filter_sublist
      recorded := by
        rw [List.map_append]
        exact List.rel_append h.recorded (List.Forall₂.cons hrec List.Forall₂.nil)
      numbers := by
        rw [List.map_append, h.numbers, List.length_append, List.length_singleton,
          List.range'_concat]
        simp only [List.map_cons, List.map_nil, LogHandle.stamp, hnext]
        congr 2
        omega
      file := by
        simp only [LogSystem.append, happ]
        rw [h.file]
        simp
      tail := Or.inl rfl
      size := by simpa only [LogSystem.append, happ] using hsize
      isOpen := by simpa only [LogSystem.append, happ] using hclosed
      policy := by simpa only [LogSystem.append, happ] using hpolicy
      ready := by
        simp only [LogSystem.append, happ]
        intro herr
        obtain ⟨hw, hs⟩ := hready herr
        refine ⟨trivial, hw, ?_⟩
        rw [hs, hnext, List.length_append, List.length_singleton] }

/-- An attempt that leaves a record cut short, and the writer refusing further writes. -/
theorem Intact.cutShort
    {J : EntryJson δ} {s : LogSystem δ}
    {kept : List (Entry δ × Bool)} {recs : List Bytes}
    (h : Intact J s kept recs [])
    {entry : Entry δ} {now : Int} {io : AppendIO}
    {w : LogHandle} {rec : Bytes} {k : Nat} {r : Except AppendError Nat}
    (happ : s.wal.append J s.file entry now io = (w, s.file ++ rec.take k, r))
    (hrec : Recorded J (s.wal.stamp entry now) rec)
    (hk : k < rec.length)
    (hsize : (s.file ++ rec.take k).length < 2 ^ 63)
    (hclosed : w.closed = false) (hpolicy : w.policy = .every)
    (herr : w.writer.err = true) (hr : r.isOk = false)
    (alive : Bool) :
    Intact J (s.append J entry now io alive) kept recs (rec.take k) where
  sub := h.sub.trans (List.sublist_append_left _ _)
  acked := by
    rw [acked_append_of_error (by rw [happ]; exact hr)]
    exact h.acked
  recorded := h.recorded
  numbers := h.numbers
  file := by
    simp only [LogSystem.append, happ]
    rw [h.file, List.append_nil]
  tail := Or.inr ⟨_, rec, k, hrec, hk, rfl⟩
  size := by simpa only [LogSystem.append, happ] using hsize
  isOpen := by simpa only [LogSystem.append, happ] using hclosed
  policy := by simpa only [LogSystem.append, happ] using hpolicy
  ready := by
    simp only [LogSystem.append, happ, herr]
    intro hf
    cases hf

/-- One `Append`, with any outcome of its parts, keeps the file intact. -/
theorem Intact.append
    {J : EntryJson δ} {s : LogSystem δ}
    {kept : List (Entry δ × Bool)} {recs : List Bytes} {torn : Bytes}
    (h : Intact J s kept recs torn)
    {entry : Entry δ} {now : Int} {io : AppendIO}
    (hlim : s.WithinLimits J entry now io)
    (alive : Bool) :
    ∃ kept' recs' torn', Intact J (s.append J entry now io alive) kept' recs' torn' := by
  by_cases herr : s.wal.writer.err = true
  · obtain ⟨r, happ, hr⟩ := LogHandle.append_refused J herr s.file entry now io
    exact ⟨kept, recs, torn, h.unchanged happ hr alive⟩
  · obtain ⟨rfl, hwriter, hseq⟩ := h.ready (by simpa using herr)
    rcases LogHandle.append_effect J h.isOpen h.policy hwriter s.file entry now io with
      happ | ⟨rec, k, w, r, henc, happ, hclosed, hpolicy, hout⟩
    · exact ⟨kept, recs, [], h.unchanged happ rfl alive⟩
    · have hrec : Recorded J (s.wal.stamp entry now) rec :=
        ⟨henc, hlim.1 rec henc, Nat.mod_lt _ (by norm_num)⟩
      have hsize : (s.file ++ rec.take k).length < 2 ^ 63 := by
        have := hlim.2
        rwa [happ] at this
      by_cases hk : k < rec.length
      · rcases hout with ⟨hwerr, hr⟩ | ⟨hle, _, _⟩
        · exact ⟨kept, recs, rec.take k,
            h.cutShort happ hrec hk hsize hclosed hpolicy hwerr hr alive⟩
        · omega
      · rw [List.take_of_length_le (by omega)] at happ hsize
        refine ⟨_, _, [],
          h.extended hseq happ hrec hsize hclosed hpolicy ?_ alive⟩
        intro hok
        rcases hout with ⟨hwerr, _⟩ | ⟨_, hw, hs⟩
        · rw [hok] at hwerr
          cases hwerr
        · exact ⟨hw, hs⟩

theorem step_intact
    (J : EntryJson δ) (s : LogSystem δ) (e : LogEvent δ) (s' : LogSystem δ)
    (h : ∃ kept recs torn, Intact J s kept recs torn)
    (hok : s.Legal J e)
    (hstep : s.step J e = some s') :
    ∃ kept recs torn, Intact J s' kept recs torn := by
  obtain ⟨kept, recs, torn, h⟩ := h
  cases e with
  | append entry now io =>
      cases hstep
      exact h.append hok true
  | killedIn entry now io =>
      obtain ⟨kept', recs', torn', h'⟩ := h.append hok false
      exact ⟨kept', recs', [], h'.reopen hstep⟩
  | kill =>
      exact ⟨kept, recs, [], h.reopen hstep⟩

/-- No kill leaves a log that does not open again. -/
theorem Intact.step_isSome
    {J : EntryJson δ} {s : LogSystem δ}
    {kept : List (Entry δ × Bool)} {recs : List Bytes} {torn : Bytes}
    (h : Intact J s kept recs torn)
    (e : LogEvent δ)
    (hok : s.Legal J e) :
    (s.step J e).isSome = true := by
  cases e with
  | append entry now io =>
      rfl
  | killedIn entry now io =>
      obtain ⟨kept', recs', torn', h'⟩ := h.append hok false
      simp [step, LogSystem.reopen, h'.replay]
  | kill =>
      simp [step, LogSystem.reopen, h.replay]

/--
Whatever the outcomes of the writes, flushes and syncs and wherever the process
is killed: every replay succeeds, delivers the entries whose `Append` returned
`nil`, in order, and otherwise only entries whose `Append` did not return
success, and their numbers are 1, 2, 3, and so on.
-/
theorem appends_recoverable
    (J : EntryJson δ) (es : List (LogEvent δ)) (s : LogSystem δ)
    (hrun : Run (step J) (Legal J) start es s) :
    s.Recoverable J ∧ ∀ e, s.Legal J e → (s.step J e).isSome = true := by
  obtain ⟨kept, recs, torn, h⟩ :=
    hrun.invariant (fun s => ∃ kept recs torn, Intact J s kept recs torn)
      (step_intact J) ⟨[], [], [], intact_start J⟩
  exact ⟨h.recoverable, h.step_isSome⟩

end LogSystem

/-- The bytes of an ASCII text. -/
def asciiBytes (s : String) : Bytes :=
  s.toList.map fun c => UInt8.ofNat c.toNat

/-- The start of a task, as the first entry of a log. -/
def firstEntry : Entry Bytes :=
  ⟨1, .start, "a", 5, []⟩

/-- Its completion, as the second entry. -/
def secondEntry : Entry Bytes :=
  ⟨2, .complete, "a", 6, []⟩

/-- The JSON texts of these two entries. -/
def twoEntriesJson : EntryJson Bytes where
  marshal e :=
    if e = firstEntry then
      some (asciiBytes "\x7b\"seq\":1,\"type\":2,\"task_id\":\"a\",\"ts\":5\x7d")
    else if e = secondEntry then
      some (asciiBytes "\x7b\"seq\":2,\"type\":3,\"task_id\":\"a\",\"ts\":6\x7d")
    else
      none
  unmarshal b :=
    if b = asciiBytes "\x7b\"seq\":1,\"type\":2,\"task_id\":\"a\",\"ts\":5\x7d" then
      some firstEntry
    else if b = asciiBytes "\x7b\"seq\":2,\"type\":3,\"task_id\":\"a\",\"ts\":6\x7d" then
      some secondEntry
    else
      none
  roundTrip := by
    intro e b h
    split_ifs at h with h₁ h₂
    · subst h₁
      cases h
      rfl
    · subst h₂
      cases h
      rfl

/-- An append that succeeds, one killed after ten bytes, and one that is not synced. -/
def tornThenRetried : List (LogEvent Bytes) :=
  [.append firstEntry 0 ⟨true, .full, .full, .full, true⟩,
    .killedIn secondEntry 0 ⟨true, .full, .full, .short 10, true⟩,
    .append secondEntry 0 ⟨true, .full, .full, .full, false⟩]

theorem appends_recoverable_tornThenRetried :
    ∃ s, Run (LogSystem.step twoEntriesJson) (LogSystem.Legal twoEntriesJson)
        LogSystem.start tornThenRetried s ∧
      s.wal.seq = 2 ∧
      s.Recoverable twoEntriesJson := by
  obtain ⟨s, hrun, hseq⟩ :=
    exists_run_of_exec (LogSystem.step twoEntriesJson)
      (LogSystem.Legal twoEntriesJson) (fun s => s.wal.seq = 2)
      LogSystem.start tornThenRetried (by decide +kernel)
  exact ⟨s, hrun, hseq,
    (LogSystem.appends_recoverable twoEntriesJson tornThenRetried s hrun).1⟩

end Append

end Wal
end TaskQueue
