import TaskQueue.Wal.Log
import TaskQueue.Wal.Unsynced

/-!
# The limits of the writer and of the reader

`encodeRecord` of `internal/wal/wal.go` refuses a body of more than `math.MaxUint32` bytes,
`Replay` one of more than 64 MiB.  This module takes a log without I/O errors, under any sync
policy: appends of entries of any size, flushes and syncs, and a clean `Close`.

The file and the buffer are the records of the entries that were accepted (`Whole`), so that
`Replay` delivers all of them if every one of their bodies is within the limit of the reader,
and fails otherwise (`accepted_replayed_iff_fit`).
-/

namespace TaskQueue
namespace Wal

open Lib

universe u

namespace BufWriter

/-- Without an error, a flush hands over the whole buffer. -/
theorem flush_full
    {w : BufWriter}
    (herr : w.err = false)
    (file : Bytes) :
    w.flush file .full = (empty, file ++ w.buf, true) := by
  have hflag : (w.flush file .full).2.2 = true := by
    unfold flush
    rw [herr, if_neg Bool.false_ne_true]
    split_ifs <;> rfl
  rcases flush_spec herr file .full with h | ⟨w', n, h, -⟩
  · exact h
  · rw [h] at hflag
    cases hflag

/-- Without an error, a write puts its bytes behind those that the writer has. -/
theorem write_full
    {w : BufWriter}
    (herr : w.err = false)
    (file p : Bytes) :
    ∃ (w' : BufWriter) (file' : Bytes),
      w.write file p .full .full = (w', file', true) ∧ w'.err = false ∧
        file' ++ w'.buf = file ++ w.buf ++ p := by
  obtain ⟨w', file', h | ⟨h, -, -⟩⟩ := write_spec herr file p .full .full
  · exact ⟨w', file', h⟩
  · exfalso
    rw [write, herr, if_neg Bool.false_ne_true, flush_full rfl] at h
    dsimp only [direct] at h
    split_ifs at h <;> cases h

end BufWriter

section Limits

variable {δ : Type u}

namespace LogHandle

/-- An `Append` to a closed log, or of an entry that cannot be encoded. -/
theorem append_refused_of
    {J : EntryJson δ} {w : LogHandle} {entry : Entry δ} {now : Int}
    (h : w.closed = true ∨ encodeRecord J (w.stamp entry now) = none)
    (file : Bytes) :
    ∃ err, w.append J file entry now UnsyncedLog.succeeds = (w, file, .error err) := by
  unfold append
  split_ifs with hclosed
  · exact ⟨_, rfl⟩
  · have henc : w.encoded J entry now UnsyncedLog.succeeds = none :=
      h.resolve_left hclosed
    rw [henc]
    exact ⟨_, rfl⟩

/-- Without an error, any other `Append` puts the record behind what the writer has. -/
theorem append_accepted_of
    {J : EntryJson δ} {w : LogHandle} {entry : Entry δ} {now : Int} {rec : Bytes}
    (hopen : w.closed = false)
    (herr : w.writer.err = false)
    (henc : encodeRecord J (w.stamp entry now) = some rec)
    (file : Bytes) :
    ∃ (w' : LogHandle) (file' : Bytes),
      w.append J file entry now UnsyncedLog.succeeds = (w', file', .ok w'.seq) ∧
        w'.closed = false ∧ w'.writer.err = false ∧
        file' ++ w'.writer.buf = file ++ w.writer.buf ++ rec := by
  have hencoded : w.encoded J entry now UnsyncedLog.succeeds = some rec := henc
  obtain ⟨wr, file', hwrite, hok, hcat⟩ := BufWriter.write_full herr file rec
  have hwrite' : w.writer.write file rec UnsyncedLog.succeeds.fill UnsyncedLog.succeeds.rest =
      (wr, file', true) := hwrite
  by_cases hpolicy : w.policy = .every
  · refine ⟨{ w with writer := BufWriter.empty, seq := w.nextSeq }, file' ++ wr.buf, ?_, hopen,
      rfl, ?_⟩
    · have hflush : wr.flush file' UnsyncedLog.succeeds.flush =
          (BufWriter.empty, file' ++ wr.buf, true) := BufWriter.flush_full hok file'
      rw [append, hopen, if_neg Bool.false_ne_true, hencoded]
      dsimp only
      rw [hwrite']
      dsimp only
      rw [finish, if_pos hpolicy, hflush]
      rfl
    · rw [hcat]
      exact List.append_nil _
  · refine ⟨{ w with writer := wr, seq := w.nextSeq }, file', ?_, hopen, hok, hcat⟩
    rw [append, hopen, if_neg Bool.false_ne_true, hencoded]
    dsimp only
    rw [hwrite']
    dsimp only
    rw [finish, if_neg hpolicy]

end LogHandle

/-- The body of the record of an entry is within the limit of the reader. -/
def WithinReaderLimit (J : EntryJson δ) (e : Entry δ) : Prop :=
  ∀ rec ∈ encodeRecord J e, rec.length ≤ headerSize + maxBody

namespace UnsyncedLog

/-- `Open` on a new file and `SetSeq`. -/
def openedWith (policy : SyncPolicy) (seq : Nat) : UnsyncedLog δ where
  file := []
  wal := (LogHandle.opened policy).setSeq seq
  size := 0
  acked := []

/-- The calls without I/O errors. -/
def NoFault (_ : UnsyncedLog δ) : LogCall δ → Prop
  | .append _ _ io => io = succeeds
  | .flush o => o = .full
  | .sync o synced => o = .full ∧ synced = true
  | .close o released => o = .full ∧ released = true

/-- The file after a clean `Close`. -/
def closedFile (s : UnsyncedLog δ) : Bytes :=
  (s.wal.close s.file .full true).2.1

/-- The file and the buffer are the records of the accepted entries. -/
structure Whole (J : EntryJson δ) (s : UnsyncedLog δ) : Prop where
  noError : s.wal.writer.err = false
  drained : s.wal.closed = true → s.wal.writer.buf = []
  records : ∃ file recs, List.Forall₂ (OnDisk J) file recs ∧ entriesOf file = s.acked ∧
    s.file ++ s.wal.writer.buf = recs.flatten

theorem whole_openedWith
    (J : EntryJson δ) (policy : SyncPolicy) (seq : Nat) :
    Whole J (openedWith policy seq) where
  noError := rfl
  drained := fun _ => rfl
  records := ⟨[], [], .nil, rfl, rfl⟩

/-- An accepted entry brings its record. -/
theorem Whole.append
    {J : EntryJson δ} {s : UnsyncedLog δ}
    (h : Whole J s)
    (entry : Entry δ) (now : Int) :
    Whole J (s.append J entry now succeeds) := by
  by_cases hrefused : s.wal.closed = true ∨ encodeRecord J (s.wal.stamp entry now) = none
  · obtain ⟨err, happ⟩ := LogHandle.append_refused_of hrefused s.file
    simp only [UnsyncedLog.append, happ]
    exact h
  · rw [not_or, Bool.not_eq_true] at hrefused
    obtain ⟨rec, henc⟩ := Option.ne_none_iff_exists'.mp hrefused.2
    obtain ⟨w', file', happ, hopen, hok, hcat⟩ :=
      LogHandle.append_accepted_of hrefused.1 h.noError henc s.file
    obtain ⟨file, recs, hdisk, hacked, hwhole⟩ := h.records
    have hrec : OnDisk J ⟨s.wal.stamp entry now, rec.length - headerSize⟩ rec :=
      ⟨henc, (Log.encodeRecord_length henc).1, Nat.mod_lt _ (by norm_num)⟩
    simp only [UnsyncedLog.append, happ]
    refine ⟨hok, fun hclosed => ?_, file ++ [⟨s.wal.stamp entry now, rec.length - headerSize⟩],
      recs ++ [rec], List.rel_append hdisk (.cons hrec .nil), ?_, ?_⟩
    · dsimp only at hclosed
      rw [hopen] at hclosed
      cases hclosed
    · rw [entriesOf, List.map_append, ← hacked]
      rfl
    · rw [hcat, hwhole, List.flatten_append, List.flatten_singleton]

theorem Whole.flushed
    {J : EntryJson δ} {s : UnsyncedLog δ}
    (h : Whole J s)
    (closed : Bool) :
    Whole J (s.flushed .full closed) := by
  obtain ⟨file, recs, hdisk, hacked, hwhole⟩ := h.records
  have hflush := BufWriter.flush_full h.noError s.file
  simp only [UnsyncedLog.flushed, hflush]
  refine ⟨rfl, fun _ => rfl, file, recs, hdisk, hacked, ?_⟩
  rw [hwhole]
  exact List.append_nil _

theorem step_whole
    {J : EntryJson δ} (s : UnsyncedLog δ) (c : LogCall δ) (s' : UnsyncedLog δ)
    (h : Whole J s)
    (hok : s.NoFault c)
    (hstep : s.step J c = some s') :
    Whole J s' := by
  cases c with
  | append entry now io =>
      cases hok
      cases hstep
      exact h.append entry now
  | flush o =>
      cases hok
      cases hstep
      unfold LogHandle.flush
      split_ifs
      · exact h
      · exact h.flushed s.wal.closed
  | sync o synced =>
      obtain ⟨rfl, rfl⟩ := hok
      cases hstep
      unfold LogHandle.sync LogHandle.flushWriter
      rw [BufWriter.flush_full h.noError]
      split_ifs
      · exact h
      · have hflushed := h.flushed s.wal.closed
        simp only [UnsyncedLog.flushed, BufWriter.flush_full h.noError] at hflushed
        exact hflushed
  | close o released =>
      obtain ⟨rfl, rfl⟩ := hok
      cases hstep
      unfold LogHandle.close
      split_ifs
      · exact h
      · exact h.flushed true

/-- A clean `Close` leaves the records of the accepted entries in the file. -/
theorem Whole.closedFile
    {J : EntryJson δ} {s : UnsyncedLog δ}
    (h : Whole J s) :
    ∃ file recs, List.Forall₂ (OnDisk J) file recs ∧ entriesOf file = s.acked ∧
      s.closedFile = recs.flatten := by
  obtain ⟨file, recs, hdisk, hacked, hwhole⟩ := h.records
  refine ⟨file, recs, hdisk, hacked, ?_⟩
  rw [← hwhole, UnsyncedLog.closedFile, LogHandle.close]
  split_ifs with hclosed
  · rw [h.drained hclosed, List.append_nil]
  · rw [LogHandle.flushWriter, BufWriter.flush_full h.noError]

end UnsyncedLog

/-- Records on disk are readable if and only if their entries are within the limit. -/
theorem readable_iff_withinLimit
    {J : EntryJson δ} {file : List (LogRecord δ)} {recs : List Bytes}
    (h : List.Forall₂ (OnDisk J) file recs) :
    Readable file ↔ ∀ e ∈ entriesOf file, WithinReaderLimit J e := by
  induction h with
  | nil =>
      simp [Readable, entriesOf]
  | @cons r rec file recs hrec _ ih =>
      have hfits : WithinReaderLimit J r.entry ↔ r.bodyLen ≤ maxBody := by
        have hlen := hrec.length
        simp only [WithinReaderLimit, hrec.encoded, Option.mem_some_iff, forall_eq']
        omega
      simp only [Readable, entriesOf, List.map_cons, List.forall_mem_cons] at ih ⊢
      rw [hfits, ← ih]

namespace UnsyncedLog

/-- What `Replay` makes of the records of the accepted entries. -/
theorem Whole.replay
    {J : EntryJson δ} {s : UnsyncedLog δ}
    (h : Whole J s) :
    ((∀ e ∈ s.acked, WithinReaderLimit J e) →
      (Wal.replay J collect [] s.closedFile).1 = .ok (s.acked, lastSeqOf s.acked 0)) ∧
    ((¬ ∀ e ∈ s.acked, WithinReaderLimit J e) →
      ∃ err, (Wal.replay J collect [] s.closedFile).1 = .error err) := by
  obtain ⟨file, recs, hdisk, hacked, hfile⟩ := h.closedFile
  rw [hfile, replay_bytes hdisk, ← hacked, ← readable_iff_withinLimit hdisk]
  constructor
  · intro hread
    exact replayRecords_of_readable hread (foldlM_collect (entriesOf file) [])
  · intro hread
    cases hreplay : replayRecords collect [] file with
    | error err =>
        exact ⟨err, rfl⟩
    | ok r =>
        exact absurd (replayRecords_readable hreplay) hread

/--
After any calls without I/O errors and a clean `Close`, `Replay` delivers all entries that
`Append` has accepted if their bodies are at most 64 MiB, and fails otherwise.
-/
theorem accepted_replayed_iff_fit
    (J : EntryJson δ) (policy : SyncPolicy) (seq : Nat)
    (calls : List (LogCall δ)) (s : UnsyncedLog δ)
    (hrun : Run (step J) NoFault (openedWith policy seq) calls s) :
    ((∀ e ∈ s.acked, WithinReaderLimit J e) →
      (replay J collect [] s.closedFile).1 = .ok (s.acked, lastSeqOf s.acked 0)) ∧
    ((¬ ∀ e ∈ s.acked, WithinReaderLimit J e) →
      ∃ err, (replay J collect [] s.closedFile).1 = .error err) := by
  have hwhole : Whole J s := hrun.invariant (Whole J) step_whole (whole_openedWith J policy seq)
  exact hwhole.replay

theorem accepted_replayed_iff_fit_two :
    ∃ s, Run (step twoEntriesJson) NoFault (openedWith .batch 0)
        [.append firstEntry 0 succeeds, .append secondEntry 0 succeeds] s ∧
      s.acked = [firstEntry, secondEntry] ∧
      (replay twoEntriesJson collect [] s.closedFile).1 = .ok (s.acked, lastSeqOf s.acked 0) := by
  let s := ((openedWith .batch 0).append twoEntriesJson firstEntry 0 succeeds).append
    twoEntriesJson secondEntry 0 succeeds
  have hrun : Run (step twoEntriesJson) NoFault (openedWith .batch 0)
      [.append firstEntry 0 succeeds, .append secondEntry 0 succeeds] s :=
    .cons rfl rfl (.cons rfl rfl (.nil s))
  have hacked : s.acked = [firstEntry, secondEntry] := by decide +kernel
  have hfit : ∀ e ∈ s.acked, WithinReaderLimit twoEntriesJson e := by
    rw [hacked]
    unfold WithinReaderLimit
    decide +kernel
  exact ⟨s, hrun, hacked, (accepted_replayed_iff_fit twoEntriesJson .batch 0 _ s hrun).1 hfit⟩

/-- The first entry of a log, with the byte `A` in triples as its data. -/
def bulkEntry (triples : Nat) : Entry Bytes :=
  ⟨1, .enqueue, "a", 5, List.replicate (3 * triples) 0x41⟩

/-- Its JSON text; `encoding/json` writes the data in base64, four characters a triple. -/
def bulkText (triples : Nat) : Bytes :=
  asciiBytes "\x7b\"seq\":1,\"type\":1,\"task_id\":\"a\",\"ts\":5,\"data\":\"" ++
    (List.replicate triples (asciiBytes "QUFB")).flatten ++ asciiBytes "\"\x7d"

theorem bulkText_length
    (triples : Nat) :
    (bulkText triples).length = 49 + 4 * triples := by
  have hopening : (asciiBytes
      "\x7b\"seq\":1,\"type\":1,\"task_id\":\"a\",\"ts\":5,\"data\":\"").length = 47 := by
    decide +kernel
  have hgroup : (asciiBytes "QUFB").length = 4 := by
    decide +kernel
  have hclosing : (asciiBytes "\"\x7d").length = 2 := by
    decide +kernel
  rw [bulkText, List.length_append, List.length_append, List.length_flatten, List.map_replicate,
    List.sum_replicate, hopening, hgroup, hclosing, smul_eq_mul]
  omega

/-- `encoding/json` for these entries; without data the field would be left out. -/
def bulkJson : EntryJson Bytes where
  marshal e :=
    if e.data ≠ [] ∧ e = bulkEntry (e.data.length / 3) then
      some (bulkText (e.data.length / 3))
    else
      none
  unmarshal b := some (bulkEntry ((b.length - 49) / 4))
  roundTrip := by
    intro e b h
    split_ifs at h with he
    cases h
    rw [bulkText_length, Nat.add_sub_cancel_left, Nat.mul_div_cancel_left _ (by norm_num)]
    exact congrArg some he.2.symm

theorem marshal_bulkEntry
    {triples : Nat}
    (h : 0 < triples) :
    bulkJson.marshal (bulkEntry triples) = some (bulkText triples) := by
  have htriples : (bulkEntry triples).data.length / 3 = triples := by
    rw [bulkEntry, List.length_replicate, Nat.mul_div_cancel_left _ (by norm_num)]
  have hdata : (bulkEntry triples).data ≠ [] := by
    rw [← List.length_pos_iff, bulkEntry, List.length_replicate]
    omega
  show (if _ then _ else _) = _
  rw [htriples, if_pos ⟨hdata, rfl⟩]

/-- One entry whose body is longer than 64 MiB and not longer than `math.MaxUint32`. -/
theorem oversized_accepted
    {triples : Nat}
    (hmax : maxBody < minBody + (49 + 4 * triples))
    (hfits : minBody + (49 + 4 * triples) ≤ maxUint32)
    (policy : SyncPolicy) :
    ∃ s : UnsyncedLog Bytes,
      Run (step bulkJson) NoFault (openedWith policy 0)
        [.append { bulkEntry triples with seq := 0 } 5 succeeds] s ∧
      s.acked = [bulkEntry triples] ∧
      ∃ err, (replay bulkJson collect [] s.closedFile).1 = .error err := by
  let start : UnsyncedLog Bytes := openedWith policy 0
  have hpos : 0 < triples := by
    by_contra hzero
    rw [Nat.eq_zero_of_not_pos hzero] at hmax
    exact absurd hmax (by decide)
  have henc : encodeRecord bulkJson (start.wal.stamp { bulkEntry triples with seq := 0 } 5) =
      some (frame (recordBody 1 .enqueue (bulkText triples))) := by
    have hstamp : start.wal.stamp { bulkEntry triples with seq := 0 } 5 = bulkEntry triples := rfl
    rw [hstamp, encodeRecord, marshal_bulkEntry hpos]
    refine if_neg (Nat.not_lt.mpr ?_)
    rw [bulkText_length]
    exact hfits
  obtain ⟨w', file', happ, -⟩ := LogHandle.append_accepted_of rfl rfl henc start.file
  have hacked : (start.append bulkJson { bulkEntry triples with seq := 0 } 5 succeeds).acked =
      [bulkEntry triples] := by
    rw [UnsyncedLog.append, happ]
    rfl
  have hwhole := (whole_openedWith bulkJson policy 0).append
    { bulkEntry triples with seq := 0 } 5
  refine ⟨_, .cons rfl rfl (.nil _), hacked, hwhole.replay.2 ?_⟩
  intro hfit
  have hlen := hfit _ (hacked ▸ List.mem_singleton_self _) _ henc
  rw [frame_length, recordBody_length, bulkText_length] at hlen
  omega

/-- Data of 48 MiB, in base64 64 MiB: `Append` returns `nil`, and `Replay` fails. -/
theorem append_accepts_unreadable :
    ∃ s : UnsyncedLog Bytes,
      Run (step bulkJson) NoFault (openedWith .every 0)
        [.append { bulkEntry (2 ^ 24) with seq := 0 } 5 succeeds] s ∧
      s.acked = [bulkEntry (2 ^ 24)] ∧
      ∃ err, (replay bulkJson collect [] s.closedFile).1 = .error err :=
  oversized_accepted (by decide) (by decide) .every

end UnsyncedLog

end Limits

end Wal
end TaskQueue
