import TaskQueue.Lib.Bytes
import TaskQueue.Queue.Task

/-!
# The record format of the write-ahead log

`Entry`, `encodeRecord` and `Replay` of `internal/wal/wal.go`, on bytes.

A record is `magic(2) len(4) seq(8) crc32(4) type(1) data(N)`, the data being
the JSON text of the entry.  `encoding/json` is a parameter (`EntryJson`) of
which only the round trip is used.  The entries are generic in the type of their
`Data` field, which the log never looks into.

`readFrame` is one iteration of the loop of `Replay` up to the end of the body;
`replayLoop` is the loop.  The main results say how the reader takes what the
writer wrote: a whole record is delivered (`replayLoop_record`), and a record
that is cut short ends the replay (`replayLoop_torn`).
-/

namespace TaskQueue
namespace Wal

open Lib Queue

universe u v

/-- `EntryType`; `unknown` stands for the bytes that are not a constant of the package. -/
inductive EntryType
  | enqueue
  | start
  | complete
  | fail
  | retry
  | dead
  | cancel
  | snapshot
  | unknown (code : UInt8) (h : code = 0 ∨ 8 < code)
deriving DecidableEq

namespace EntryType

/-- The byte of an entry type. -/
def code : EntryType → UInt8
  | enqueue => 1
  | start => 2
  | complete => 3
  | fail => 4
  | retry => 5
  | dead => 6
  | cancel => 7
  | snapshot => 8
  | unknown c _ => c

/-- `EntryType(b)`. -/
def ofCode (b : UInt8) : EntryType :=
  if b = 1 then enqueue
  else if b = 2 then start
  else if b = 3 then complete
  else if b = 4 then fail
  else if b = 5 then retry
  else if b = 6 then dead
  else if b = 7 then cancel
  else if h : b = 0 ∨ 8 < b then unknown b h
  else snapshot

@[simp] theorem ofCode_code
    (t : EntryType) :
    ofCode t.code = t := by
  cases t with
  | unknown c h =>
      have hne : ∀ k : UInt8, 1 ≤ k → k ≤ 8 → c ≠ k := by
        rintro k h1 h8 rfl
        rcases h with rfl | h
        · exact absurd h1 (by decide)
        · rw [UInt8.lt_iff_toNat_lt] at h
          rw [UInt8.le_iff_toNat_le] at h8
          omega
      simp [code, ofCode, hne 1 (by decide) (by decide), hne 2 (by decide) (by decide),
        hne 3 (by decide) (by decide), hne 4 (by decide) (by decide),
        hne 5 (by decide) (by decide), hne 6 (by decide) (by decide),
        hne 7 (by decide) (by decide), h]
  | _ => rfl

end EntryType

/-- `Entry`: one record of the log. -/
structure Entry (δ : Type u) where
  seq : Nat
  type : EntryType
  taskID : TaskID
  timestamp : Int
  data : δ
deriving DecidableEq

/-- `json.Marshal` and `json.Unmarshal` of an entry, and what the log relies on. -/
structure EntryJson (δ : Type u) where
  marshal : Entry δ → Option Bytes
  unmarshal : Bytes → Option (Entry δ)
  roundTrip : ∀ e b, marshal e = some b → unmarshal b = some e

/-- `walMagic`. -/
def walMagic : Bytes := [0xAA, 0x4C]

def magicSize : Nat := 2
def lenSize : Nat := 4
def seqSize : Nat := 8
def crcSize : Nat := 4
def typeSize : Nat := 1
def headerSize : Nat := magicSize + lenSize
def minBody : Nat := seqSize + crcSize + typeSize

/-- `math.MaxUint32`, the limit of the writer. -/
def maxUint32 : Nat := 4294967295

/-- The limit of the reader: 64 MiB. -/
def maxBody : Nat := 64 * 1024 * 1024

/-- The body of a record: `seq + crc32 + type + data`. -/
def recordBody (seq : Nat) (type : EntryType) (payload : Bytes) : Bytes :=
  le seqSize seq ++
    (le crcSize (crc32c (type.code :: payload)).toNat ++ (type.code :: payload))

/-- A body behind its header. -/
def frame (body : Bytes) : Bytes :=
  walMagic ++ (le lenSize body.length ++ body)

section Json

variable {δ : Type u} {σ : Type v}

/-- `encodeRecord`; `none` is an error. -/
def encodeRecord (J : EntryJson δ) (e : Entry δ) : Option Bytes :=
  match J.marshal e with
  | none => none
  | some payload =>
      if maxUint32 < minBody + payload.length then
        none
      else
        some (frame (recordBody e.seq e.type payload))

/-- What one iteration of the loop of `Replay` finds up to the end of a body. -/
inductive FrameRead
  | tail
  | badMagic
  | badLength (bodyLen : Nat)
  | body (bytes rest : Bytes)

/-- The reading part of one iteration of the loop of `Replay`. -/
def readFrame (bs : Bytes) : FrameRead :=
  match readFull magicSize bs with
  | none => .tail
  | some (magicBuf, bs₁) =>
      if magicBuf ≠ walMagic then
        .badMagic
      else
        match readFull lenSize bs₁ with
        | none => .tail
        | some (lenBuf, bs₂) =>
            if unLe lenBuf < minBody ∨ maxBody < unLe lenBuf then
              .badLength (unLe lenBuf)
            else
              match readFull (unLe lenBuf) bs₂ with
              | none => .tail
              | some (body, rest) => .body body rest

theorem readFrame_body_length
    {bs body rest : Bytes}
    (h : readFrame bs = .body body rest) :
    bs.length = headerSize + body.length + rest.length := by
  unfold readFrame at h
  split at h
  · cases h
  · rename_i magicBuf bs₁ hmagic
    obtain ⟨rfl, hm⟩ := readFull_some hmagic
    split_ifs at h
    split at h
    · cases h
    · rename_i lenBuf bs₂ hlen
      obtain ⟨rfl, hl⟩ := readFull_some hlen
      split_ifs at h
      split at h
      · cases h
      · rename_i body' rest' hbody
        obtain ⟨rfl, _⟩ := readFull_some hbody
        cases h
        simp only [List.length_append, hm, hl, headerSize]
        omega

/-- The errors of `Replay`. -/
inductive ReplayError
  | badMagicAtStart
  | badMagic (offset : Nat)
  | badLengthAtStart
  | badLength (bodyLen offset : Nat)
  | crcMismatch (offset stored computed : Nat)
  | jsonDecode (offset : Nat)
  | handler (seq : Nat) (msg : String)
deriving DecidableEq

/-- The sequence number in a body. -/
def bodySeq (body : Bytes) : Nat :=
  unLe (body.take seqSize)

/-- The checksum stored in a body. -/
def bodyCRC (body : Bytes) : Nat :=
  unLe ((body.drop seqSize).take crcSize)

/-- The part of a body that is checksummed. -/
def typeAndPayload (body : Bytes) : Bytes :=
  body.drop (seqSize + crcSize)

/-- The entry in a body whose checksum is right; `none` is a JSON error. -/
def decodeEntry (J : EntryJson δ) (body : Bytes) : Option (Entry δ) :=
  (J.unmarshal (typeAndPayload body).tail).map fun e =>
    { e with
      type := EntryType.ofCode ((typeAndPayload body).headD 0)
      seq := bodySeq body }

/--
The loop of `Replay`: `validEnd` is the offset after the last valid record.  On
success the state of the handler, the last sequence number and the offset to
which the file is truncated.
-/
def replayLoop
    (J : EntryJson δ) (fn : σ → Entry δ → Except String σ)
    (bs : Bytes) (validEnd recordCount lastSeq : Nat) (s : σ) :
    Except ReplayError (σ × Nat × Nat) :=
  match _h : readFrame bs with
  | .tail => .ok (s, lastSeq, validEnd)
  | .badMagic =>
      if recordCount = 0 then .error .badMagicAtStart
      else .error (.badMagic validEnd)
  | .badLength bodyLen =>
      if recordCount = 0 then .error .badLengthAtStart
      else .error (.badLength bodyLen validEnd)
  | .body body rest =>
      if bodyCRC body ≠ (crc32c (typeAndPayload body)).toNat then
        if rest = [] then .ok (s, lastSeq, validEnd)
        else
          .error (.crcMismatch validEnd (bodyCRC body)
            (crc32c (typeAndPayload body)).toNat)
      else
        match decodeEntry J body with
        | none => .error (.jsonDecode validEnd)
        | some entry =>
            match fn s entry with
            | .error msg => .error (.handler (bodySeq body) msg)
            | .ok s' =>
                replayLoop J fn rest (validEnd + headerSize + body.length)
                  (recordCount + 1) (bodySeq body) s'
termination_by bs.length
decreasing_by
  have := readFrame_body_length _h
  simp only [headerSize, magicSize, lenSize] at this
  omega

/-- `Replay` on the bytes of a file: the result and the file that it leaves. -/
def replay
    (J : EntryJson δ) (fn : σ → Entry δ → Except String σ)
    (s : σ) (file : Bytes) :
    Except ReplayError (σ × Nat) × Bytes :=
  match replayLoop J fn file 0 0 0 s with
  | .error e => (.error e, file)
  | .ok (s', lastSeq, validEnd) => (.ok (s', lastSeq), file.take validEnd)

@[simp] theorem recordBody_length
    (seq : Nat) (type : EntryType) (payload : Bytes) :
    (recordBody seq type payload).length = minBody + payload.length := by
  simp only [recordBody, List.length_append, le_length, List.length_cons, minBody,
    typeSize]
  omega

@[simp] theorem frame_length
    (body : Bytes) :
    (frame body).length = headerSize + body.length := by
  simp only [frame, List.length_append, le_length, walMagic, headerSize, magicSize,
    List.length_cons, List.length_nil]
  omega

theorem bodySeq_recordBody
    {seq : Nat}
    (h : seq < 2 ^ 64)
    (type : EntryType) (payload : Bytes) :
    bodySeq (recordBody seq type payload) = seq := by
  have htake :
      (recordBody seq type payload).take seqSize = le seqSize seq := by
    rw [recordBody, List.take_append_of_le_length (by simp)]
    exact List.take_of_length_le (by simp)
  rw [bodySeq, htake]
  exact unLe_le (by simpa [seqSize] using h)

theorem drop_seq_recordBody
    (seq : Nat) (type : EntryType) (payload : Bytes) :
    (recordBody seq type payload).drop seqSize =
      le crcSize (crc32c (type.code :: payload)).toNat ++ (type.code :: payload) := by
  rw [recordBody, List.drop_append_of_le_length (by simp),
    List.drop_of_length_le (by simp), List.nil_append]

theorem typeAndPayload_recordBody
    (seq : Nat) (type : EntryType) (payload : Bytes) :
    typeAndPayload (recordBody seq type payload) = type.code :: payload := by
  rw [typeAndPayload, ← List.drop_drop, drop_seq_recordBody,
    List.drop_append_of_le_length (by simp), List.drop_of_length_le (by simp),
    List.nil_append]

theorem bodyCRC_recordBody
    (seq : Nat) (type : EntryType) (payload : Bytes) :
    bodyCRC (recordBody seq type payload) =
      (crc32c (type.code :: payload)).toNat := by
  have htake :
      ((recordBody seq type payload).drop seqSize).take crcSize =
        le crcSize (crc32c (type.code :: payload)).toNat := by
    rw [drop_seq_recordBody, List.take_append_of_le_length (by simp)]
    exact List.take_of_length_le (by simp)
  rw [bodyCRC, htake]
  apply unLe_le
  have := (crc32c (type.code :: payload)).toNat_lt
  simpa [crcSize] using this

/-- A whole frame is read, whatever follows it. -/
theorem readFrame_frame
    {body : Bytes}
    (hmin : minBody ≤ body.length)
    (hmax : body.length ≤ maxBody)
    (rest : Bytes) :
    readFrame (frame body ++ rest) = .body body rest := by
  have hlen : unLe (le lenSize body.length) = body.length := by
    apply unLe_le
    simp only [lenSize, maxBody] at hmax ⊢
    omega
  have h₁ :
      readFull magicSize (frame body ++ rest) =
        some (walMagic, le lenSize body.length ++ (body ++ rest)) := by
    rw [frame, List.append_assoc, List.append_assoc]
    exact readFull_append rfl _
  have h₂ :
      readFull lenSize (le lenSize body.length ++ (body ++ rest)) =
        some (le lenSize body.length, body ++ rest) :=
    readFull_append (le_length _ _) _
  have h₃ : readFull body.length (body ++ rest) = some (body, rest) :=
    readFull_append rfl rest
  have hok : ¬ (body.length < minBody ∨ maxBody < body.length) := by
    omega
  simp [readFrame, h₁, h₂, h₃, hlen, hok]

/-- A frame that is cut short by the end of the file is a tail. -/
theorem readFrame_torn
    {body : Bytes}
    (hmin : minBody ≤ body.length)
    (hmax : body.length ≤ maxBody)
    {k : Nat}
    (hk : k < (frame body).length) :
    readFrame ((frame body).take k) = .tail := by
  rw [frame_length] at hk
  by_cases hm : k < magicSize
  · have : readFull magicSize ((frame body).take k) = none := by
      apply readFull_short
      rw [List.length_take]
      omega
    simp [readFrame, this]
  · have hsplit :
        (frame body).take k =
          walMagic ++ (le lenSize body.length ++ body).take (k - magicSize) := by
      rw [frame, List.take_append, List.take_of_length_le (by simp [walMagic, magicSize] at *; omega)]
      rfl
    have h₁ :
        readFull magicSize ((frame body).take k) =
          some (walMagic, (le lenSize body.length ++ body).take (k - magicSize)) := by
      rw [hsplit]
      exact readFull_append rfl _
    by_cases hl : k - magicSize < lenSize
    · have h₂ :
          readFull lenSize ((le lenSize body.length ++ body).take (k - magicSize)) =
            none := by
        apply readFull_short
        rw [List.length_take]
        omega
      simp [readFrame, h₁, h₂]
    · have hsplit₂ :
          (le lenSize body.length ++ body).take (k - magicSize) =
            le lenSize body.length ++ body.take (k - magicSize - lenSize) := by
        rw [List.take_append, List.take_of_length_le (by rw [le_length]; omega), le_length]
      have h₂ :
          readFull lenSize ((le lenSize body.length ++ body).take (k - magicSize)) =
            some (le lenSize body.length, body.take (k - magicSize - lenSize)) := by
        rw [hsplit₂]
        exact readFull_append (le_length _ _) _
      have hlen : unLe (le lenSize body.length) = body.length := by
        apply unLe_le
        simp only [lenSize, maxBody] at hmax ⊢
        omega
      have h₃ :
          readFull body.length (body.take (k - magicSize - lenSize)) = none := by
        apply readFull_short
        rw [List.length_take]
        simp only [headerSize] at hk
        omega
      have hok : ¬ (body.length < minBody ∨ maxBody < body.length) := by
        omega
      simp [readFrame, h₁, h₂, h₃, hlen, hok]

/-- `rec` is the record of `e`, of a size and with a number that `Replay` accepts. -/
structure Recorded (J : EntryJson δ) (e : Entry δ) (rec : Bytes) : Prop where
  encoded : encodeRecord J e = some rec
  size : rec.length ≤ headerSize + maxBody
  number : e.seq < 2 ^ 64

/-- The parts of a record. -/
theorem Recorded.shape
    {J : EntryJson δ} {e : Entry δ} {rec : Bytes}
    (h : Recorded J e rec) :
    ∃ payload,
      J.marshal e = some payload ∧
      rec = frame (recordBody e.seq e.type payload) ∧
      minBody ≤ (recordBody e.seq e.type payload).length ∧
      (recordBody e.seq e.type payload).length ≤ maxBody := by
  have henc := h.encoded
  unfold encodeRecord at henc
  cases hm : J.marshal e with
  | none =>
      simp [hm] at henc
  | some payload =>
      simp only [hm] at henc
      split_ifs at henc
      cases henc
      have hsize := h.size
      rw [frame_length] at hsize
      refine ⟨payload, rfl, rfl, ?_, ?_⟩
      · rw [recordBody_length]
        omega
      · omega

theorem Recorded.length_ge
    {J : EntryJson δ} {e : Entry δ} {rec : Bytes}
    (h : Recorded J e rec) :
    headerSize + minBody ≤ rec.length := by
  obtain ⟨payload, _, rfl, hmin, _⟩ := h.shape
  rw [frame_length]
  omega

/-- The reader decodes the body of a record to the entry that was written. -/
theorem decodeEntry_recordBody
    {J : EntryJson δ} {e : Entry δ} {payload : Bytes}
    (hm : J.marshal e = some payload)
    (hseq : e.seq < 2 ^ 64) :
    decodeEntry J (recordBody e.seq e.type payload) = some e := by
  simp only [decodeEntry, typeAndPayload_recordBody, List.tail_cons, List.headD_cons,
    J.roundTrip e payload hm, Option.map_some, EntryType.ofCode_code,
    bodySeq_recordBody hseq]

/-- A body that `Replay` accepts, and the entry that it delivers for it. -/
structure BodyOf (J : EntryJson δ) (body : Bytes) (e : Entry δ) : Prop where
  min : minBody ≤ body.length
  max : body.length ≤ maxBody
  checksum : bodyCRC body = (crc32c (typeAndPayload body)).toNat
  decoded : decodeEntry J body = some e

theorem BodyOf.seq_eq
    {J : EntryJson δ} {body : Bytes} {e : Entry δ}
    (h : BodyOf J body e) :
    e.seq = bodySeq body := by
  obtain ⟨e', -, rfl⟩ := Option.map_eq_some_iff.mp h.decoded
  rfl

/-- The body of a record holds the entry that was written. -/
theorem Recorded.bodyOf
    {J : EntryJson δ} {e : Entry δ} {rec : Bytes}
    (h : Recorded J e rec) :
    ∃ body, rec = frame body ∧ BodyOf J body e := by
  obtain ⟨payload, hm, rfl, hmin, hmax⟩ := h.shape
  refine ⟨recordBody e.seq e.type payload, rfl, hmin, hmax, ?_,
    decodeEntry_recordBody hm h.number⟩
  rw [bodyCRC_recordBody, typeAndPayload_recordBody]

/-- One turn of the loop at a whole frame with an accepted body. -/
theorem replayLoop_frame
    {J : EntryJson δ} {body : Bytes} {e : Entry δ}
    (h : BodyOf J body e)
    (fn : σ → Entry δ → Except String σ) (s : σ)
    (rest : Bytes) (validEnd recordCount lastSeq : Nat) :
    replayLoop J fn (frame body ++ rest) validEnd recordCount lastSeq s =
      match fn s e with
      | .error msg => .error (.handler e.seq msg)
      | .ok s' =>
          replayLoop J fn rest (validEnd + headerSize + body.length)
            (recordCount + 1) e.seq s' := by
  have hread := readFrame_frame h.min h.max rest
  rw [replayLoop]
  split
  all_goals
    rename_i hr
    rw [hread] at hr
    cases hr
  rw [if_neg (not_not.mpr h.checksum), h.decoded]
  cases hfn : fn s e <;> simp only [hfn, h.seq_eq]

/-- The loop delivers a whole record and goes on after it. -/
theorem replayLoop_record
    {J : EntryJson δ} {e : Entry δ} {rec : Bytes}
    (h : Recorded J e rec)
    {fn : σ → Entry δ → Except String σ} {s s' : σ}
    (hfn : fn s e = .ok s')
    (rest : Bytes) (validEnd recordCount lastSeq : Nat) :
    replayLoop J fn (rec ++ rest) validEnd recordCount lastSeq s =
      replayLoop J fn rest (validEnd + rec.length) (recordCount + 1) e.seq s' := by
  obtain ⟨body, rfl, hbody⟩ := h.bodyOf
  rw [replayLoop_frame hbody]
  simp only [hfn, frame_length, Nat.add_assoc]

/-- The loop ends at a record that is cut short. -/
theorem replayLoop_torn
    {J : EntryJson δ} {e : Entry δ} {rec : Bytes}
    (h : Recorded J e rec)
    {k : Nat} (hk : k < rec.length)
    (fn : σ → Entry δ → Except String σ) (s : σ)
    (validEnd recordCount lastSeq : Nat) :
    replayLoop J fn (rec.take k) validEnd recordCount lastSeq s =
      .ok (s, lastSeq, validEnd) := by
  obtain ⟨payload, _, rfl, hmin, hmax⟩ := h.shape
  have hread := readFrame_torn hmin hmax hk
  rw [replayLoop]
  split
  · rfl
  all_goals
    rename_i hr
    rw [hread] at hr
    cases hr

/-- The loop ends at the end of the file. -/
theorem replayLoop_nil
    (J : EntryJson δ) (fn : σ → Entry δ → Except String σ)
    (validEnd recordCount lastSeq : Nat) (s : σ) :
    replayLoop J fn [] validEnd recordCount lastSeq s = .ok (s, lastSeq, validEnd) := by
  rw [replayLoop]
  split
  · rfl
  all_goals
    rename_i hr
    cases hr

/-- The sequence number after the last of the entries, or the one before them. -/
def lastSeqOf (es : List (Entry δ)) (before : Nat) : Nat :=
  (es.getLast?.map Entry.seq).getD before

theorem lastSeqOf_cons
    (e : Entry δ) (es : List (Entry δ)) (before : Nat) :
    lastSeqOf (e :: es) before = lastSeqOf es e.seq := by
  unfold lastSeqOf
  rw [List.getLast?_cons]
  cases es.getLast? <;> rfl

/-- The loop delivers a list of whole records in order. -/
theorem replayLoop_records
    {J : EntryJson δ} {es : List (Entry δ)} {recs : List Bytes}
    (h : List.Forall₂ (Recorded J) es recs)
    {fn : σ → Entry δ → Except String σ} {s s' : σ}
    (hfn : es.foldlM fn s = .ok s')
    (rest : Bytes) (validEnd recordCount lastSeq : Nat) :
    replayLoop J fn (recs.flatten ++ rest) validEnd recordCount lastSeq s =
      replayLoop J fn rest (validEnd + recs.flatten.length)
        (recordCount + es.length) (lastSeqOf es lastSeq) s' := by
  induction h generalizing s validEnd recordCount lastSeq with
  | nil =>
      cases hfn
      rfl
  | @cons e rec es recs hrec _ ih =>
      rw [List.foldlM_cons] at hfn
      cases hfe : fn s e with
      | error msg =>
          rw [hfe] at hfn
          cases hfn
      | ok s₁ =>
          rw [hfe] at hfn
          rw [List.flatten_cons, List.append_assoc, replayLoop_record hrec hfe, ih hfn,
            lastSeqOf_cons]
          simp only [List.length_append, List.length_cons, Nat.add_assoc,
            Nat.add_comm 1 es.length]

/--
`Replay` on whole records followed by a record that is cut short delivers the
whole records, reports the last of their numbers and truncates the file to them.
-/
theorem replay_records_torn
    {J : EntryJson δ} {es : List (Entry δ)} {recs : List Bytes}
    (h : List.Forall₂ (Recorded J) es recs)
    {e : Entry δ} {rec : Bytes}
    (hrec : Recorded J e rec)
    {k : Nat} (hk : k < rec.length)
    {fn : σ → Entry δ → Except String σ} {s s' : σ}
    (hfn : es.foldlM fn s = .ok s') :
    replay J fn s (recs.flatten ++ rec.take k) =
      (.ok (s', lastSeqOf es 0), recs.flatten) := by
  unfold replay
  rw [replayLoop_records h hfn, replayLoop_torn hrec hk]
  simp

/-- `Replay` on whole records. -/
theorem replay_records
    {J : EntryJson δ} {es : List (Entry δ)} {recs : List Bytes}
    (h : List.Forall₂ (Recorded J) es recs)
    {fn : σ → Entry δ → Except String σ} {s s' : σ}
    (hfn : es.foldlM fn s = .ok s') :
    replay J fn s recs.flatten = (.ok (s', lastSeqOf es 0), recs.flatten) := by
  unfold replay
  rw [← List.append_nil recs.flatten, replayLoop_records h hfn, replayLoop_nil]
  simp

/-- The handler that only collects what it is given. -/
def collect (acc : List (Entry δ)) (e : Entry δ) : Except String (List (Entry δ)) :=
  .ok (acc ++ [e])

theorem foldlM_collect
    (es acc : List (Entry δ)) :
    es.foldlM collect acc = .ok (acc ++ es) := by
  induction es generalizing acc with
  | nil =>
      simp [pure, Except.pure]
  | cons e es ih =>
      rw [List.foldlM_cons]
      show es.foldlM collect (acc ++ [e]) = _
      rw [ih, List.append_assoc]
      rfl

end Json

end Wal
end TaskQueue
