import TaskQueue.Wal.Repair

/-!
# A log that does not flush its records

`WAL.Append` under `SyncNone` of `internal/wal/wal.go`: the record goes to the buffer of
`bufio.Writer` and `Append` returns `nil`, whether or not a byte of it has reached the file.
The process may call `Flush`, `Sync` and `Close`, all with arbitrary outcomes, and is killed
between two calls or in the middle of one.

The bytes that the process has produced form one stream of records, of which the file is a
prefix (`Stream`).  So `Replay` delivers the acknowledged entries whose records have reached
the file, and these are all of them if and only if the file has as many bytes as `Size`
reports (`acknowledged_delivered_iff_flushed`).
-/

namespace TaskQueue
namespace Wal

open Lib

universe u

namespace BufWriter

/-- A flush hands over the buffer, or fails for good after some of it. -/
theorem flush_spec
    {w : BufWriter}
    (herr : w.err = false)
    (file : Bytes) (o : OsWrite) :
    (w.flush file o = (empty, file ++ w.buf, true)) ∨
    ∃ (w' : BufWriter) (n : Nat),
      w.flush file o = (w', file ++ w.buf.take n, false) ∧ w'.err = true := by
  simp only [flush, herr, Bool.false_eq_true, if_false]
  split_ifs with hbuf
  · left
    rw [hbuf, List.append_nil]
    cases w
    cases hbuf
    cases herr
    rfl
  · cases o with
    | full =>
        exact Or.inl rfl
    | short n =>
        exact Or.inr ⟨_, n, rfl, rfl⟩

/-- A write past the buffer, likewise. -/
theorem direct_spec
    (file p : Bytes) (o : OsWrite) :
    ∃ (w' : BufWriter) (file' : Bytes),
      (direct file p o = (w', file', true) ∧ w'.err = false ∧
        file' ++ w'.buf = file ++ p) ∨
      (direct file p o = (w', file', false) ∧ w'.err = true ∧ file' <+: file ++ p) := by
  cases o with
  | full =>
      exact ⟨_, _, Or.inl ⟨rfl, rfl, List.append_nil _⟩⟩
  | short n =>
      exact ⟨_, _, Or.inr ⟨rfl, rfl,
        (List.prefix_append_right_inj file).mpr (List.take_prefix n p)⟩⟩

/--
A write puts its bytes behind those that the writer has, partly in the file and partly in
the buffer; or it fails for good, and the file has some of them.
-/
theorem write_spec
    {w : BufWriter}
    (herr : w.err = false)
    (file p : Bytes) (fill rest : OsWrite) :
    ∃ (w' : BufWriter) (file' : Bytes),
      (w.write file p fill rest = (w', file', true) ∧ w'.err = false ∧
        file' ++ w'.buf = file ++ w.buf ++ p) ∨
      (w.write file p fill rest = (w', file', false) ∧ w'.err = true ∧
        file' <+: file ++ w.buf ++ p) := by
  simp only [write, herr, Bool.false_eq_true, if_false]
  by_cases hfits : p.length ≤ bufSize - w.buf.length
  · rw [if_pos hfits]
    exact ⟨_, _, Or.inl ⟨rfl, rfl, (List.append_assoc file w.buf p).symm⟩⟩
  by_cases hempty : w.buf = []
  · rw [if_neg hfits, if_pos hempty, hempty, List.append_nil]
    exact direct_spec file p rest
  -- the buffer is filled up and flushed, and the rest goes the same two ways
  rw [if_neg hfits, if_neg hempty]
  have hsplit :
      file ++ w.buf ++ p =
        (file ++ (w.buf ++ p.take (bufSize - w.buf.length))) ++
          p.drop (bufSize - w.buf.length) := by
    simp only [List.append_assoc, List.take_append_drop]
  rw [hsplit]
  rcases flush_spec (w := ⟨w.buf ++ p.take (bufSize - w.buf.length), false⟩) rfl file fill with
    hflush | ⟨w', n, hflush, hw'⟩
  · rw [hflush]
    dsimp only
    split_ifs
    · exact ⟨_, _, Or.inl ⟨rfl, rfl, rfl⟩⟩
    · exact direct_spec _ _ rest
  · rw [hflush]
    refine ⟨_, _, Or.inr ⟨rfl, hw', ?_⟩⟩
    exact ((List.prefix_append_right_inj file).mpr (List.take_prefix n _)).trans
      (List.prefix_append _ _)

end BufWriter

section Unsynced

variable {δ : Type u}

namespace LogHandle

/-- The flush of the writer, as the methods of the log call it. -/
def flushWriter (w : LogHandle) (file : Bytes) (o : OsWrite) : LogHandle × Bytes × Bool :=
  ({ w with writer := (w.writer.flush file o).1 }, (w.writer.flush file o).2)

/-- `WAL.Flush`. -/
def flush (w : LogHandle) (file : Bytes) (o : OsWrite) : LogHandle × Bytes × Bool :=
  if w.closed then (w, file, false) else w.flushWriter file o

/-- `WAL.Sync`; `synced` is the outcome of the `fsync`. -/
def sync (w : LogHandle) (file : Bytes) (o : OsWrite) (synced : Bool) :
    LogHandle × Bytes × Bool :=
  if w.closed then
    (w, file, false)
  else
    match w.flushWriter file o with
    | (w', file', false) => (w', file', false)
    | (w', file', true) => (w', file', synced)

/-- `WAL.Close`; `released` says whether the `fsync` and the `close` succeed. -/
def close (w : LogHandle) (file : Bytes) (o : OsWrite) (released : Bool) :
    LogHandle × Bytes × Bool :=
  if w.closed then
    (w, file, true)
  else
    match { w with closed := true }.flushWriter file o with
    | (w', file', flushed) => (w', file', flushed && released)

end LogHandle

/-- A call of a method of the log, with the outcomes of its system calls. -/
inductive LogCall (δ : Type u) where
  | append (entry : Entry δ) (now : Int) (io : AppendIO)
  | flush (o : OsWrite)
  | sync (o : OsWrite) (synced : Bool)
  | close (o : OsWrite) (released : Bool)

/-- A log, the value of `Size`, and the entries whose `Append` returned `nil`. -/
structure UnsyncedLog (δ : Type u) where
  file : Bytes
  wal : LogHandle
  size : Nat
  acked : List (Entry δ)

namespace UnsyncedLog

/-- `Open` with `SyncNone` on a file, and `SetSeq`. -/
def opened (file : Bytes) (seq : Nat) : UnsyncedLog δ where
  file := file
  wal := (LogHandle.opened .none).setSeq seq
  size := file.length
  acked := []

/-- A call of `Append` that returns; `Size` counts what the writer has taken. -/
def append (J : EntryJson δ) (s : UnsyncedLog δ) (entry : Entry δ) (now : Int)
    (io : AppendIO) : UnsyncedLog δ :=
  match s.wal.append J s.file entry now io with
  | (w, file, .ok _) =>
      { file := file
        wal := w
        size := s.size + ((encodeRecord J (s.wal.stamp entry now)).getD []).length
        acked := s.acked ++ [s.wal.stamp entry now] }
  | (w, file, .error _) => { s with file := file, wal := w }

/-- The calls of one process. -/
def step (J : EntryJson δ) (s : UnsyncedLog δ) : LogCall δ → Option (UnsyncedLog δ)
  | .append entry now io => some (s.append J entry now io)
  | .flush o =>
      some { s with wal := (s.wal.flush s.file o).1, file := (s.wal.flush s.file o).2.1 }
  | .sync o synced =>
      some
        { s with
          wal := (s.wal.sync s.file o synced).1
          file := (s.wal.sync s.file o synced).2.1 }
  | .close o released =>
      some
        { s with
          wal := (s.wal.close s.file o released).1
          file := (s.wal.close s.file o released).2.1 }

/-- The body of an appended record is at most 64 MiB. -/
def Legal (J : EntryJson δ) (s : UnsyncedLog δ) : LogCall δ → Prop
  | .append entry now _ =>
      ∀ rec ∈ encodeRecord J (s.wal.stamp entry now), rec.length ≤ headerSize + maxBody
  | _ => True

instance (J : EntryJson δ) (s : UnsyncedLog δ) (c : LogCall δ) : Decidable (s.Legal J c) :=
  match c with
  | .append entry now _ =>
      inferInstanceAs (Decidable (∀ rec ∈ encodeRecord J (s.wal.stamp entry now), _))
  | .flush _ => inferInstanceAs (Decidable True)
  | .sync _ _ => inferInstanceAs (Decidable True)
  | .close _ _ => inferInstanceAs (Decidable True)

/--
The file that a kill leaves: the process dies between two calls, or in the middle of one
that has handed over some of its bytes and never returns.
-/
inductive Killed (J : EntryJson δ) (s : UnsyncedLog δ) : Bytes → Prop
  | between : Killed J s s.file
  | within (c : LogCall δ) (s' : UnsyncedLog δ)
      (hok : s.Legal J c) (hstep : s.step J c = some s') : Killed J s s'.file

/--
The file is a prefix of a stream of records, which starts with those of the entries
`base`, and `size` is the number of bytes of these.
-/
def Stream (J : EntryJson δ) (base : List (Entry δ)) (size : Nat) (file : Bytes) : Prop :=
  ∃ (es : List (Entry δ)) (recs : List Bytes),
    List.Forall₂ (Recorded J) es recs ∧ base <+: es ∧ file <+: recs.flatten ∧
    size = (recs.take base.length).flatten.length

/-- As long as the writer has not failed, the file and the buffer are the whole stream. -/
structure Ready (J : EntryJson δ) (es : List (Entry δ)) (s : UnsyncedLog δ) : Prop where
  policy : s.wal.policy = .none
  stream : Stream J es s.size s.file
  whole : s.wal.writer.err = false →
    ∃ recs, List.Forall₂ (Recorded J) es recs ∧ s.file ++ s.wal.writer.buf = recs.flatten ∧
      s.size = recs.flatten.length

/-- The whole stream is a stream of the entries, and so is a prefix of it. -/
theorem stream_of_prefix
    {J : EntryJson δ} {es : List (Entry δ)} {recs : List Bytes} {file : Bytes}
    (h : List.Forall₂ (Recorded J) es recs)
    (hfile : file <+: recs.flatten) :
    Stream J es recs.flatten.length file := by
  refine ⟨es, recs, h, List.prefix_refl es, hfile, ?_⟩
  rw [h.length_eq, List.take_length]

/-- One more record, of which the file may have a part. -/
theorem stream_of_extended
    {J : EntryJson δ} {es : List (Entry δ)} {recs : List Bytes} {file : Bytes}
    (h : List.Forall₂ (Recorded J) es recs)
    {e : Entry δ} {rec : Bytes}
    (hrec : Recorded J e rec)
    (hfile : file <+: recs.flatten ++ rec) :
    Stream J es recs.flatten.length file := by
  refine ⟨es ++ [e], recs ++ [rec], List.rel_append h (.cons hrec .nil),
    List.prefix_append es [e], ?_, ?_⟩
  · rwa [List.flatten_append, List.flatten_singleton]
  · rw [h.length_eq, List.take_left]

end UnsyncedLog

namespace LogHandle

/--
An `Append` without a flush: nothing happens, or the record follows what the writer has
taken before; then the call succeeds, or the writer has failed for good.
-/
theorem append_unsynced
    (J : EntryJson δ) {w : LogHandle}
    (hpolicy : w.policy = .none)
    (herr : w.writer.err = false)
    (file : Bytes) (entry : Entry δ) (now : Int) (io : AppendIO) :
    (∃ err, w.append J file entry now io = (w, file, .error err)) ∨
    ∃ (rec : Bytes) (w' : LogHandle) (file' : Bytes),
      encodeRecord J (w.stamp entry now) = some rec ∧ w'.policy = .none ∧
      ((w.append J file entry now io = (w', file', .ok w'.seq) ∧ w'.writer.err = false ∧
          file' ++ w'.writer.buf = file ++ w.writer.buf ++ rec) ∨
        (w.append J file entry now io = (w', file', .error .write) ∧ w'.writer.err = true ∧
          file' <+: file ++ w.writer.buf ++ rec)) := by
  unfold append
  split_ifs with hclosed
  · exact Or.inl ⟨_, rfl⟩
  · cases henc : w.encoded J entry now io with
    | none =>
        exact Or.inl ⟨_, rfl⟩
    | some rec =>
        have hrec : encodeRecord J (w.stamp entry now) = some rec := by
          unfold encoded at henc
          split_ifs at henc
          exact henc
        right
        obtain ⟨wr, file', hwrite⟩ := BufWriter.write_spec herr file rec io.fill io.rest
        rcases hwrite with ⟨hwrite, hok, hcat⟩ | ⟨hwrite, hfail, hpre⟩
        · refine ⟨rec, { w with writer := wr, seq := w.nextSeq }, file', hrec, hpolicy,
            Or.inl ⟨?_, hok, hcat⟩⟩
          simp only [hwrite, finish, hpolicy, reduceCtorEq, if_false]
        · refine ⟨rec, { w with writer := wr }, file', hrec, hpolicy,
            Or.inr ⟨?_, hfail, hpre⟩⟩
          simp only [hwrite]

end LogHandle

namespace UnsyncedLog

/-- The log after a call that flushes the writer, and closes the log if `closed`. -/
def flushed (s : UnsyncedLog δ) (o : OsWrite) (closed : Bool) : UnsyncedLog δ :=
  { s with
    wal := { s.wal with writer := (s.wal.writer.flush s.file o).1, closed := closed }
    file := (s.wal.writer.flush s.file o).2.1 }

/-- The calls other than `Append` do nothing on a closed log, or flush the writer. -/
theorem step_flushes
    {J : EntryJson δ} {s s' : UnsyncedLog δ} {c : LogCall δ}
    (hc : ∀ entry now io, c ≠ .append entry now io)
    (hstep : s.step J c = some s') :
    s' = s ∨ ∃ o closed, s' = s.flushed o closed := by
  cases c with
  | append entry now io =>
      exact absurd rfl (hc entry now io)
  | flush o =>
      cases hstep
      unfold LogHandle.flush
      split_ifs
      · exact Or.inl rfl
      · exact Or.inr ⟨o, s.wal.closed, rfl⟩
  | sync o synced =>
      cases hstep
      unfold LogHandle.sync
      split_ifs
      · exact Or.inl rfl
      · refine Or.inr ⟨o, s.wal.closed, ?_⟩
        simp only [LogHandle.flushWriter, flushed]
        obtain ⟨wr, file, ok⟩ := s.wal.writer.flush s.file o
        cases ok <;> rfl
  | close o released =>
      cases hstep
      unfold LogHandle.close
      split_ifs
      · exact Or.inl rfl
      · exact Or.inr ⟨o, true, rfl⟩

/-- A flush moves bytes of the stream from the buffer to the file. -/
theorem Ready.flushed
    {J : EntryJson δ} {es : List (Entry δ)} {s : UnsyncedLog δ}
    (h : Ready J es s)
    (o : OsWrite) (closed : Bool) :
    Ready J es (s.flushed o closed) := by
  by_cases herr : s.wal.writer.err = true
  · have hnone : s.wal.writer.flush s.file o = (s.wal.writer, s.file, false) := by
      simp only [BufWriter.flush, herr, if_true]
    simp only [UnsyncedLog.flushed, hnone]
    exact ⟨h.policy, h.stream, h.whole⟩
  · have hok : s.wal.writer.err = false := by simpa using herr
    obtain ⟨recs, hrecs, hcat, hsize⟩ := h.whole hok
    rcases BufWriter.flush_spec hok s.file o with hflush | ⟨w', n, hflush, hw'⟩
    · simp only [UnsyncedLog.flushed, hflush]
      refine ⟨h.policy, ?_, fun _ => ⟨recs, hrecs, ?_, hsize⟩⟩
      · dsimp only
        rw [hcat, hsize]
        exact stream_of_prefix hrecs (List.prefix_refl _)
      · rw [hcat]
        exact List.append_nil _
    · simp only [UnsyncedLog.flushed, hflush]
      refine ⟨h.policy, ?_, fun hf => ?_⟩
      · dsimp only
        rw [hsize]
        refine stream_of_prefix hrecs ?_
        rw [← hcat]
        exact (List.prefix_append_right_inj s.file).mpr (List.take_prefix n _)
      · dsimp only at hf
        rw [hw'] at hf
        cases hf

/--
One `Append` keeps the stream; killed in its middle, the file has a part of the stream
with the record of the call at its end.
-/
theorem Ready.append
    {J : EntryJson δ} {base : List (Entry δ)} {s : UnsyncedLog δ}
    (h : Ready J (base ++ s.acked) s)
    {entry : Entry δ} {now : Int} {io : AppendIO}
    (hok : ∀ rec ∈ encodeRecord J (s.wal.stamp entry now),
      rec.length ≤ headerSize + maxBody) :
    Ready J (base ++ (s.append J entry now io).acked) (s.append J entry now io) ∧
      Stream J (base ++ s.acked) s.size (s.append J entry now io).file := by
  by_cases herr : s.wal.writer.err = true
  · obtain ⟨r, happ, hr⟩ := LogHandle.append_refused J herr s.file entry now io
    cases r with
    | error err =>
        simp only [UnsyncedLog.append, happ]
        exact ⟨h, h.stream⟩
    | ok seq =>
        cases hr
  · have hgood : s.wal.writer.err = false := by simpa using herr
    obtain ⟨recs, hrecs, hcat, hsize⟩ := h.whole hgood
    rcases LogHandle.append_unsynced J h.policy hgood s.file entry now io with
      ⟨err, happ⟩ | ⟨rec, w', file', henc, hpolicy, hout⟩
    · simp only [UnsyncedLog.append, happ]
      exact ⟨h, h.stream⟩
    have hrec : Recorded J (s.wal.stamp entry now) rec :=
      ⟨henc, hok rec henc, Nat.mod_lt _ (by norm_num)⟩
    rw [hcat] at hout
    rcases hout with ⟨happ, hgood', hcat'⟩ | ⟨happ, hfail, hpre⟩
    · -- the record is taken, and the call returns
      have hpre : file' <+: recs.flatten ++ rec := ⟨w'.writer.buf, hcat'⟩
      have hrecs' :
          List.Forall₂ (Recorded J) (base ++ (s.acked ++ [s.wal.stamp entry now]))
            (recs ++ [rec]) := by
        rw [← List.append_assoc]
        exact List.rel_append hrecs (.cons hrec .nil)
      have hflat : (recs ++ [rec]).flatten = recs.flatten ++ rec := by
        rw [List.flatten_append, List.flatten_singleton]
      have hsize' : s.size + rec.length = (recs ++ [rec]).flatten.length := by
        rw [hflat, List.length_append, hsize]
      simp only [UnsyncedLog.append, happ, henc, Option.getD_some]
      refine ⟨⟨hpolicy, ?_, fun _ => ⟨recs ++ [rec], hrecs', ?_, hsize'⟩⟩, ?_⟩
      · dsimp only
        rw [hsize']
        exact stream_of_prefix hrecs' (hflat ▸ hpre)
      · rw [hflat]
        exact hcat'
      · rw [hsize]
        exact stream_of_extended hrecs hrec hpre
    · -- the writer fails for good
      have hstream := stream_of_extended hrecs hrec hpre
      rw [← hsize] at hstream
      simp only [UnsyncedLog.append, happ]
      refine ⟨⟨hpolicy, hstream, fun hf => ?_⟩, hstream⟩
      dsimp only at hf
      rw [hfail] at hf
      cases hf

/-- One call keeps the stream, whether it returns or not. -/
theorem Ready.call
    {J : EntryJson δ} {base : List (Entry δ)} {s s' : UnsyncedLog δ} {c : LogCall δ}
    (h : Ready J (base ++ s.acked) s)
    (hok : s.Legal J c)
    (hstep : s.step J c = some s') :
    Ready J (base ++ s'.acked) s' ∧ Stream J (base ++ s.acked) s.size s'.file := by
  by_cases hc : ∀ entry now io, c ≠ .append entry now io
  · rcases step_flushes hc hstep with rfl | ⟨o, closed, rfl⟩
    · exact ⟨h, h.stream⟩
    · exact ⟨h.flushed o closed, (h.flushed o closed).stream⟩
  · simp only [ne_eq, not_forall, not_not] at hc
    obtain ⟨entry, now, io, rfl⟩ := hc
    cases hstep
    exact h.append hok

theorem ready_opened
    {J : EntryJson δ} {es : List (Entry δ)} {recs : List Bytes}
    (h : List.Forall₂ (Recorded J) es recs)
    (seq : Nat) :
    Ready J (es ++ []) (opened recs.flatten seq : UnsyncedLog δ) := by
  rw [List.append_nil]
  exact
    { policy := rfl
      stream := stream_of_prefix h (List.prefix_refl _)
      whole := fun _ => ⟨recs, h, List.append_nil _, rfl⟩ }

/-- What `Replay` delivers of a stream that is cut somewhere. -/
theorem Stream.replay
    {J : EntryJson δ} {base : List (Entry δ)} {size : Nat} {file : Bytes}
    (h : Stream J base size file) :
    ∃ (delivered : List (Entry δ)) (lastSeq : Nat) (left : Bytes),
      replay J collect [] file = (.ok (delivered, lastSeq), left) ∧
      (base <+: delivered ↔ size ≤ file.length) ∧
      (file.length < size → ∃ j < base.length, delivered = base.take j) := by
  obtain ⟨es, recs, hrecs, hbase, hfile, rfl⟩ := h
  have hreplay := replay_take hrecs file.length
  rw [← List.prefix_iff_eq_take.mp hfile] at hreplay
  have hlen : base.length ≤ recs.length := by
    rw [← hrecs.length_eq]
    exact hbase.length_le
  have hwhole := le_wholeWithin_iff (k := file.length) hlen
  have htake := List.prefix_iff_eq_take.mp hbase
  refine ⟨_, _, _, hreplay, ?_, ?_⟩
  · rw [← hwhole]
    constructor
    · intro hpre
      have := hpre.length_le
      rw [List.length_take] at this
      omega
    · intro hle
      rw [htake]
      exact List.take_prefix_take_left hle
  · intro hlt
    refine ⟨wholeWithin recs file.length, by omega, ?_⟩
    rw [htake, List.take_take, Nat.min_eq_left (by omega)]

/--
A process that appends under `SyncNone` to a log of whole records and is killed: `Replay`
delivers all entries whose `Append` returned `nil`, after those of the log, if and only if
the file has as many bytes as `Size` reports.  Otherwise the last of them are lost.
-/
theorem acknowledged_delivered_iff_flushed
    (J : EntryJson δ) {es : List (Entry δ)} {recs : List Bytes}
    (h : List.Forall₂ (Recorded J) es recs)
    (seq : Nat) (calls : List (LogCall δ)) (s : UnsyncedLog δ)
    (hrun : Run (step J) (Legal J) (opened recs.flatten seq) calls s)
    (file : Bytes)
    (hkill : s.Killed J file) :
    ∃ (delivered : List (Entry δ)) (lastSeq : Nat) (left : Bytes),
      replay J collect [] file = (.ok (delivered, lastSeq), left) ∧
      (es ++ s.acked <+: delivered ↔ s.size ≤ file.length) ∧
      (file.length < s.size →
        ∃ j < (es ++ s.acked).length, delivered = (es ++ s.acked).take j) := by
  have hready : Ready J (es ++ s.acked) s :=
    hrun.invariant (fun s => Ready J (es ++ s.acked) s)
      (fun _ _ _ h hok hstep => (h.call hok hstep).1) (ready_opened h seq)
  cases hkill with
  | between =>
      exact hready.stream.replay
  | within c s' hok hstep =>
      exact (hready.call hok hstep).2.replay

/-- An append and its outcome when no system call fails. -/
def succeeds : AppendIO := ⟨true, .full, .full, .full, true⟩

/-- Two appends and a flush, and then a kill. -/
theorem acknowledged_delivered_iff_flushed_two :
    ∃ (s : UnsyncedLog Bytes) (delivered : List (Entry Bytes)) (lastSeq : Nat) (left : Bytes),
      Run (step twoEntriesJson) (Legal twoEntriesJson) (opened [] 0)
        [.append firstEntry 0 succeeds, .append secondEntry 0 succeeds, .flush .full] s ∧
      s.acked = [firstEntry, secondEntry] ∧ s.size ≤ s.file.length ∧
      replay twoEntriesJson collect [] s.file = (.ok (delivered, lastSeq), left) ∧
      s.acked <+: delivered := by
  obtain ⟨s, hrun, hacked, hsize⟩ :=
    exists_run_of_exec (step twoEntriesJson) (Legal twoEntriesJson)
      (fun s => s.acked = [firstEntry, secondEntry] ∧ s.size ≤ s.file.length)
      (opened [] 0)
      [.append firstEntry 0 succeeds, .append secondEntry 0 succeeds, .flush .full]
      (by decide +kernel)
  obtain ⟨delivered, lastSeq, left, hreplay, hiff, -⟩ :=
    acknowledged_delivered_iff_flushed twoEntriesJson .nil 0 _ s hrun s.file .between
  exact ⟨s, delivered, lastSeq, left, hrun, hacked, hsize, hreplay, hiff.mpr hsize⟩

/-- One append that returned `nil`, and a kill: the file is empty. -/
theorem acknowledged_append_lost :
    ∃ s : UnsyncedLog Bytes,
      Run (step twoEntriesJson) (Legal twoEntriesJson) (opened [] 0)
        [.append firstEntry 0 succeeds] s ∧
      s.acked = [firstEntry] ∧ s.Killed twoEntriesJson s.file ∧
      replay twoEntriesJson collect [] s.file = (.ok ([], 0), []) := by
  obtain ⟨s, hrun, hacked, hfile⟩ :=
    exists_run_of_exec (step twoEntriesJson) (Legal twoEntriesJson)
      (fun s => s.acked = [firstEntry] ∧ s.file = []) (opened [] 0)
      [.append firstEntry 0 succeeds] (by decide +kernel)
  refine ⟨s, hrun, hacked, .between, ?_⟩
  rw [hfile]
  exact replay_records List.Forall₂.nil rfl

end UnsyncedLog

end Unsynced

end Wal
end TaskQueue
