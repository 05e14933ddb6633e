import Mathlib.Tactic
import TaskQueue.Wal.Append

/-!
# The log as a list of records

The engine does not look at the bytes of its log.  Above the byte level a file is
the list of its whole records, of which only the entry and the length of the
body matter, and an open log is its counter and its `closed` flag.
`replay_bytes` shows that `Replay` on bytes is `replayRecords` on the records that
the bytes are; `Log.append_bytes` shows the same for `Append` with `SyncEvery`.
-/

namespace TaskQueue
namespace Wal

open Lib (Bytes)
open Queue (TaskID)

universe u v

/-- A whole record: its entry and the length of its body. -/
structure LogRecord (δ : Type u) where
  entry : Entry δ
  bodyLen : Nat
deriving DecidableEq

section Records

variable {δ : Type u} {σ : Type v}

/-- The loop of `Replay` on whole records. -/
def replayRecordsLoop (fn : σ → Entry δ → Except String σ) :
    List (LogRecord δ) → Nat → Nat → Nat → σ → Except ReplayError (σ × Nat)
  | [], _, _, lastSeq, s => .ok (s, lastSeq)
  | r :: rs, validEnd, recordCount, _, s =>
      if maxBody < r.bodyLen then
        if recordCount = 0 then .error .badLengthAtStart
        else .error (.badLength r.bodyLen validEnd)
      else
        match fn s r.entry with
        | .error msg => .error (.handler r.entry.seq msg)
        | .ok s' =>
            replayRecordsLoop fn rs (validEnd + headerSize + r.bodyLen)
              (recordCount + 1) r.entry.seq s'

/-- `Replay` on whole records. -/
def replayRecords (fn : σ → Entry δ → Except String σ) (s : σ)
    (file : List (LogRecord δ)) : Except ReplayError (σ × Nat) :=
  replayRecordsLoop fn file 0 0 0 s

/-- The entries of a file. -/
def entriesOf (file : List (LogRecord δ)) : List (Entry δ) :=
  file.map LogRecord.entry

/-- All records are of a size that `Replay` accepts. -/
def Readable (file : List (LogRecord δ)) : Prop :=
  ∀ r ∈ file, r.bodyLen ≤ maxBody

theorem replayRecordsLoop_of_readable
    {fn : σ → Entry δ → Except String σ}
    {file : List (LogRecord δ)}
    (hread : Readable file)
    {s s' : σ}
    (hfold : (entriesOf file).foldlM fn s = .ok s')
    (validEnd recordCount lastSeq : Nat) :
    replayRecordsLoop fn file validEnd recordCount lastSeq s =
      .ok (s', lastSeqOf (entriesOf file) lastSeq) := by
  induction file generalizing s validEnd recordCount lastSeq with
  | nil =>
      cases hfold
      rfl
  | cons r rs ih =>
      have hr : ¬ maxBody < r.bodyLen := by
        have := hread r (List.mem_cons_self)
        omega
      simp only [entriesOf, List.map_cons, List.foldlM_cons] at hfold
      rw [replayRecordsLoop, if_neg hr]
      cases hfe : fn s r.entry with
      | error msg =>
          rw [hfe] at hfold
          cases hfold
      | ok s₁ =>
          rw [hfe] at hfold
          simp only [entriesOf, List.map_cons, lastSeqOf_cons]
          exact ih (fun r' hr' => hread r' (List.mem_cons_of_mem _ hr')) hfold _ _ _

/-- `Replay` of a readable file folds the handler over its entries. -/
theorem replayRecords_of_readable
    {fn : σ → Entry δ → Except String σ}
    {file : List (LogRecord δ)}
    (hread : Readable file)
    {s s' : σ}
    (hfold : (entriesOf file).foldlM fn s = .ok s') :
    replayRecords fn s file = .ok (s', lastSeqOf (entriesOf file) 0) :=
  replayRecordsLoop_of_readable hread hfold 0 0 0

theorem replayRecordsLoop_ok
    {fn : σ → Entry δ → Except String σ}
    {file : List (LogRecord δ)}
    {validEnd recordCount lastSeq last : Nat} {s s' : σ}
    (h : replayRecordsLoop fn file validEnd recordCount lastSeq s = .ok (s', last)) :
    (entriesOf file).foldlM fn s = .ok s' ∧
      last = lastSeqOf (entriesOf file) lastSeq := by
  induction file generalizing s validEnd recordCount lastSeq with
  | nil =>
      cases h
      exact ⟨rfl, rfl⟩
  | cons r rs ih =>
      rw [replayRecordsLoop] at h
      split_ifs at h with hlen h0
      cases hfe : fn s r.entry with
      | error msg =>
          simp [hfe] at h
      | ok s₁ =>
          rw [hfe] at h
          obtain ⟨hfold, hlast⟩ := ih h
          simp only [entriesOf, List.map_cons, List.foldlM_cons, hfe, lastSeqOf_cons]
          exact ⟨hfold, hlast⟩

/-- What a successful `Replay` returns. -/
theorem replayRecords_ok
    {fn : σ → Entry δ → Except String σ}
    {file : List (LogRecord δ)}
    {last : Nat} {s s' : σ}
    (h : replayRecords fn s file = .ok (s', last)) :
    (entriesOf file).foldlM fn s = .ok s' ∧ last = lastSeqOf (entriesOf file) 0 :=
  replayRecordsLoop_ok h

theorem replayRecordsLoop_readable
    {fn : σ → Entry δ → Except String σ}
    {file : List (LogRecord δ)}
    {validEnd recordCount lastSeq : Nat} {s : σ} {r : σ × Nat}
    (h : replayRecordsLoop fn file validEnd recordCount lastSeq s = .ok r) :
    Readable file := by
  induction file generalizing s validEnd recordCount lastSeq with
  | nil =>
      intro a ha
      cases ha
  | cons a rs ih =>
      rw [replayRecordsLoop] at h
      split_ifs at h with hlen h0
      cases hfe : fn s a.entry with
      | error msg =>
          simp [hfe] at h
      | ok s₁ =>
          rw [hfe] at h
          intro b hb
          rcases List.mem_cons.mp hb with rfl | hrest
          · exact Nat.le_of_not_lt hlen
          · exact ih h b hrest

/-- `Replay` succeeds on readable files only. -/
theorem replayRecords_readable
    {fn : σ → Entry δ → Except String σ}
    {file : List (LogRecord δ)} {s : σ} {r : σ × Nat}
    (h : replayRecords fn s file = .ok r) :
    Readable file :=
  replayRecordsLoop_readable h

theorem replayRecordsLoop_append
    {fn : σ → Entry δ → Except String σ}
    (file : List (LogRecord δ)) (r : LogRecord δ)
    (validEnd recordCount lastSeq last : Nat) (s s' : σ) :
    replayRecordsLoop fn (file ++ [r]) validEnd recordCount lastSeq s = .ok (s', last) ↔
      ∃ s₁ last₁,
        replayRecordsLoop fn file validEnd recordCount lastSeq s = .ok (s₁, last₁) ∧
          r.bodyLen ≤ maxBody ∧ fn s₁ r.entry = .ok s' ∧ last = r.entry.seq := by
  induction file generalizing validEnd recordCount lastSeq s with
  | nil =>
      simp only [List.nil_append, replayRecordsLoop]
      by_cases hlen : maxBody < r.bodyLen
      · have hnot : ¬ r.bodyLen ≤ maxBody := by omega
        by_cases h0 : recordCount = 0 <;> simp [hlen, hnot, h0]
      · have hle : r.bodyLen ≤ maxBody := by omega
        cases hfn : fn s r.entry with
        | error msg =>
            simp [hlen, hfn]
        | ok s₁ =>
            simp [hlen, hle, hfn, eq_comm]
  | cons a file ih =>
      simp only [List.cons_append, replayRecordsLoop]
      by_cases hlen : maxBody < a.bodyLen
      · by_cases h0 : recordCount = 0 <;> simp [hlen, h0]
      · cases hfn : fn s a.entry with
        | error msg =>
            simp [hlen]
        | ok s₁ =>
            simp only [hlen, if_false]
            exact ih _ _ _ _

/-- `Replay` of a log with one more record. -/
theorem replayRecords_append
    {fn : σ → Entry δ → Except String σ}
    (file : List (LogRecord δ)) (r : LogRecord δ)
    (last : Nat) (s s' : σ) :
    replayRecords fn s (file ++ [r]) = .ok (s', last) ↔
      ∃ s₁ last₁,
        replayRecords fn s file = .ok (s₁, last₁) ∧
          r.bodyLen ≤ maxBody ∧ fn s₁ r.entry = .ok s' ∧ last = r.entry.seq :=
  replayRecordsLoop_append file r 0 0 0 last s s'

/-- `bytes` is the record `r` as the log has it on disk. -/
structure OnDisk (J : EntryJson δ) (r : LogRecord δ) (bytes : Bytes) : Prop where
  encoded : encodeRecord J r.entry = some bytes
  length : bytes.length = headerSize + r.bodyLen
  number : r.entry.seq < 2 ^ 64

/-- The parts of a record on disk. -/
theorem OnDisk.shape
    {J : EntryJson δ} {r : LogRecord δ} {bytes : Bytes}
    (h : OnDisk J r bytes) :
    ∃ payload,
      J.marshal r.entry = some payload ∧
      bytes = frame (recordBody r.entry.seq r.entry.type payload) ∧
      (recordBody r.entry.seq r.entry.type payload).length = r.bodyLen ∧
      minBody ≤ r.bodyLen ∧ r.bodyLen ≤ maxUint32 := by
  have henc := h.encoded
  unfold encodeRecord at henc
  cases hm : J.marshal r.entry with
  | none =>
      simp [hm] at henc
  | some payload =>
      simp only [hm] at henc
      split_ifs at henc with hfits
      cases henc
      have hlen := h.length
      rw [frame_length] at hlen
      have hbody : (recordBody r.entry.seq r.entry.type payload).length = r.bodyLen := by
        omega
      refine ⟨payload, rfl, rfl, hbody, ?_, ?_⟩
      · rw [← hbody, recordBody_length]
        omega
      · rw [← hbody, recordBody_length]
        omega

/-- A frame whose body is longer than 64 MiB is refused. -/
theorem readFrame_oversized
    {body : Bytes}
    (hmax : maxBody < body.length)
    (hfits : body.length ≤ maxUint32)
    (rest : Bytes) :
    readFrame (frame body ++ rest) = .badLength body.length := by
  have hlen : Lib.unLe (Lib.le lenSize body.length) = body.length := by
    apply Lib.unLe_le
    simp only [lenSize, maxUint32] at hfits ⊢
    omega
  have h₁ :
      Lib.readFull magicSize (frame body ++ rest) =
        some (walMagic, Lib.le lenSize body.length ++ (body ++ rest)) := by
    rw [frame, List.append_assoc, List.append_assoc]
    exact Lib.readFull_append rfl _
  have h₂ :
      Lib.readFull lenSize (Lib.le lenSize body.length ++ (body ++ rest)) =
        some (Lib.le lenSize body.length, body ++ rest) :=
    Lib.readFull_append (Lib.le_length _ _) _
  simp [readFrame, h₁, h₂, hlen, hmax]

/-- One turn of the loop of `Replay` at a record on disk. -/
theorem replayLoop_onDisk
    {J : EntryJson δ} {r : LogRecord δ} {bytes : Bytes}
    (h : OnDisk J r bytes)
    (fn : σ → Entry δ → Except String σ) (s : σ)
    (rest : Bytes) (validEnd recordCount lastSeq : Nat) :
    replayLoop J fn (bytes ++ rest) validEnd recordCount lastSeq s =
      if maxBody < r.bodyLen then
        if recordCount = 0 then .error .badLengthAtStart
        else .error (.badLength r.bodyLen validEnd)
      else
        match fn s r.entry with
        | .error msg => .error (.handler r.entry.seq msg)
        | .ok s' =>
            replayLoop J fn rest (validEnd + headerSize + r.bodyLen)
              (recordCount + 1) r.entry.seq s' := by
  obtain ⟨payload, hm, rfl, hbody, hmin, hmax⟩ := h.shape
  by_cases hlen : maxBody < r.bodyLen
  · have hread := readFrame_oversized (hbody ▸ hlen) (hbody ▸ hmax) rest
    rw [replayLoop, if_pos hlen]
    split
    all_goals
      rename_i hr
      rw [hread] at hr
      cases hr
    rw [hbody]
  · have hbodyOf : BodyOf J (recordBody r.entry.seq r.entry.type payload) r.entry := by
      refine ⟨by omega, by omega, ?_, decodeEntry_recordBody hm h.number⟩
      rw [bodyCRC_recordBody, typeAndPayload_recordBody]
    have hframe := replayLoop_frame hbodyOf fn s rest validEnd recordCount lastSeq
    rw [hbody] at hframe
    rw [if_neg hlen]
    refine hframe.trans ?_
    cases fn s r.entry <;> rfl

/-- `Replay` on bytes is `replayRecords` on the records. -/
theorem replay_bytes
    {J : EntryJson δ} {file : List (LogRecord δ)} {bytes : List Bytes}
    (h : List.Forall₂ (OnDisk J) file bytes)
    (fn : σ → Entry δ → Except String σ) (s : σ) :
    (replay J fn s bytes.flatten).1 = replayRecords fn s file := by
  have key : ∀ (validEnd recordCount lastSeq : Nat) (s : σ),
      (replayLoop J fn bytes.flatten validEnd recordCount lastSeq s).map
          (fun x => (x.1, x.2.1)) =
        replayRecordsLoop fn file validEnd recordCount lastSeq s := by
    induction h with
    | nil =>
        intro validEnd recordCount lastSeq s
        rw [List.flatten_nil, replayLoop_nil]
        rfl
    | cons hrec _ ih =>
        intro validEnd recordCount lastSeq s
        rw [List.flatten_cons, replayLoop_onDisk hrec, replayRecordsLoop]
        split_ifs
        · rfl
        · rfl
        · split
          · rfl
          · exact ih _ _ _ _
  unfold replay replayRecords
  rw [← key]
  split
  · next e heq =>
    rw [heq]
    rfl
  · next s' lastSeq validEnd heq =>
    rw [heq]
    rfl

end Records

/--
What the calls below an `Append` with `SyncEvery` come to: all succeed; the writer
fails and no whole record is in the file; the flush fails part way; only the fsync
fails.
-/
inductive AppendOutcome
  | ok
  | unwritten
  | torn
  | unsynced
deriving DecidableEq, Repr

/--
The surroundings of one `Append`: the clock, the length of the record's body, the I/O, and
the text of the error of the call that fails.
-/
structure LogEnv where
  now : Int
  bodyLen : Nat
  outcome : AppendOutcome
  cause : String
deriving DecidableEq, Repr

/-- An `Append` that meets no I/O error. -/
def LogEnv.noError (now : Int) (bodyLen : Nat) : LogEnv where
  now := now
  bodyLen := bodyLen
  outcome := .ok
  cause := ""

/-- An `Append` whose write finds no room. -/
def LogEnv.diskFull (now : Int) (bodyLen : Nat) : LogEnv where
  now := now
  bodyLen := bodyLen
  outcome := .unwritten
  cause := "no space left on device"

/-- An `Append` that fails at its fsync only. -/
def LogEnv.fsyncFails (now : Int) (bodyLen : Nat) : LogEnv where
  now := now
  bodyLen := bodyLen
  outcome := .unsynced
  cause := "input/output error"

/-- An open log: its counter and whether it has been closed. -/
structure Log where
  seq : Nat
  closed : Bool
deriving DecidableEq, Repr

namespace Log

variable {δ : Type u}

/-- `Open`. -/
def opened : Log where
  seq := 0
  closed := false

/-- `WAL.SetSeq`. -/
def setSeq (w : Log) (seq : Nat) : Log :=
  { w with seq := seq }

/-- `WAL.Close`. -/
def close (w : Log) : Log :=
  { w with closed := true }

/-- The record that the next `Append` writes. -/
def record (w : Log) (type : EntryType) (taskID : TaskID) (data : δ) (io : LogEnv) :
    LogRecord δ where
  entry :=
    { seq := w.seq + 1
      type := type
      taskID := taskID
      timestamp := io.now
      data := data }
  bodyLen := io.bodyLen

/-- `WAL.Append` with `SyncEvery`: the log, the file and whether it returned `nil`. -/
def append (w : Log) (file : List (LogRecord δ)) (type : EntryType) (taskID : TaskID)
    (data : δ) (io : LogEnv) : Log × List (LogRecord δ) × Bool :=
  if w.closed || decide (maxUint32 < io.bodyLen) then
    (w, file, false)
  else
    match io.outcome with
    | .ok => ({ w with seq := w.seq + 1 }, file ++ [w.record type taskID data io], true)
    | .unwritten => (w, file, false)
    | .torn => ({ w with seq := w.seq + 1 }, file, false)
    | .unsynced =>
        ({ w with seq := w.seq + 1 }, file ++ [w.record type taskID data io], false)

/--
The text of the error of an `Append` that fails.  `encodeRecord` has no other error than that
of a body which is too long: an entry can always be marshalled.
-/
def appendError (w : Log) (io : LogEnv) : String :=
  if w.closed then
    AppendError.closed.message ""
  else if maxUint32 < io.bodyLen then
    AppendError.encode.message "wal: body length exceeds uint32 limit"
  else
    match io.outcome with
    | .ok => ""
    | .unwritten => AppendError.write.message io.cause
    | .torn => AppendError.flush.message io.cause
    | .unsynced => AppendError.sync.message io.cause

/--
An `Append` that gets the whole record into the file: the log is open, the body fits the
length field, and nothing fails before the fsync.
-/
def Writes (w : Log) (io : LogEnv) : Prop :=
  w.closed = false ∧ io.bodyLen ≤ maxUint32 ∧ (io.outcome = .ok ∨ io.outcome = .unsynced)

instance (w : Log) (io : LogEnv) : Decidable (w.Writes io) :=
  inferInstanceAs (Decidable (_ ∧ _))

/-- The length of an encoded record, and that its body fits the length field. -/
theorem encodeRecord_length
    {J : EntryJson δ} {e : Entry δ} {bytes : Bytes}
    (h : encodeRecord J e = some bytes) :
    bytes.length = headerSize + (bytes.length - headerSize) ∧
      bytes.length - headerSize ≤ maxUint32 := by
  unfold encodeRecord at h
  cases hm : J.marshal e with
  | none =>
      simp [hm] at h
  | some payload =>
      simp only [hm] at h
      split_ifs at h with hfits
      cases h
      rw [frame_length, recordBody_length]
      omega

/--
An `Append` on bytes is an `append` on records with some outcome.  As long as no
error sticks to the writer the two logs stay in step.
-/
theorem append_bytes
    (J : EntryJson δ) {w : LogHandle}
    (hclosed : w.closed = false)
    (hpolicy : w.policy = .every)
    (hwriter : w.writer = BufWriter.empty)
    (hnumber : w.seq + 1 < 2 ^ 64)
    {file : List (LogRecord δ)} {bytes : List Bytes}
    (hfile : List.Forall₂ (OnDisk J) file bytes)
    (type : EntryType) (taskID : TaskID) (data : δ)
    (now : Int) (io : AppendIO) :
    ∃ (bodyLen : Nat) (outcome : AppendOutcome),
      let onBytes := w.append J bytes.flatten ⟨0, type, taskID, 0, data⟩ now io
      let onRecords :=
        Log.append ⟨w.seq, false⟩ file type taskID data ⟨now, bodyLen, outcome, ""⟩
      onBytes.2.2.isOk = onRecords.2.2 ∧
        (onBytes.1.writer.err = false →
          onBytes.1.seq = onRecords.1.seq ∧
            ∃ bytes', List.Forall₂ (OnDisk J) onRecords.2.1 bytes' ∧
              onBytes.2.1 = bytes'.flatten) := by
  rcases LogHandle.append_effect J hclosed hpolicy hwriter bytes.flatten
      ⟨0, type, taskID, 0, data⟩ now io with
    hrefused | ⟨rec, k, w', r, hrec, happ, -, -, hcase⟩
  · refine ⟨0, .unwritten, ?_⟩
    simp only [hrefused, append, Bool.false_or]
    exact ⟨rfl, fun _ => ⟨rfl, bytes, hfile, rfl⟩⟩
  · obtain ⟨hlen, hfits⟩ := encodeRecord_length hrec
    have hsmall : ¬ maxUint32 < rec.length - headerSize := by
      omega
    rcases hcase with ⟨herr, hfail⟩ | ⟨hk, hempty, hseq⟩
    · refine ⟨0, .unwritten, ?_⟩
      simp only [happ, append, Bool.false_or]
      refine ⟨hfail, fun hgood => ?_⟩
      rw [herr] at hgood
      cases hgood
    · have hnext : w.nextSeq = w.seq + 1 := by
        rw [LogHandle.nextSeq]
        exact Nat.mod_eq_of_lt hnumber
      have hdisk : OnDisk J
          (record ⟨w.seq, false⟩ type taskID data
            ⟨now, rec.length - headerSize, if r.isOk then .ok else .unsynced, ""⟩) rec := by
        refine ⟨?_, hlen, hnumber⟩
        rw [← hrec]
        simp [record, LogHandle.stamp, hnext]
      refine ⟨rec.length - headerSize, if r.isOk then .ok else .unsynced, ?_⟩
      simp only [happ, append, hsmall, decide_false, Bool.or_false, Bool.false_eq_true,
        if_false, List.take_of_length_le hk]
      have hgrown := List.rel_append hfile (List.Forall₂.cons hdisk List.Forall₂.nil)
      split_ifs at hgrown ⊢ with hok
      · exact ⟨hok, fun _ => ⟨by rw [hseq, hnext], _, hgrown, by simp⟩⟩
      · exact ⟨by simpa using hok, fun _ => ⟨by rw [hseq, hnext], _, hgrown, by simp⟩⟩

end Log

end Wal
end TaskQueue
