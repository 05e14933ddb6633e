import TaskQueue.Lib.Checksum
import TaskQueue.Wal.Log
import TaskQueue.Wal.Repair

/-!
# A damaged byte before the last record

A log of records that `encodeRecord` wrote, and one byte with a different value in a record
that is not the last.  The fields of the record are protected by different means.

* The magic number is compared.
* The stored checksum, the type and the payload are covered by the CRC-32C.
* A wrong length moves the end of the body, so that another part of the file is checked; if
  it points behind the end of the file, the rest of the log looks like a torn write.
* Nothing covers the sequence number.

`Noticed` is the condition under which `Replay` returns an error and leaves the file alone;
`damage_noticed_iff` proves it exact.  `Fails` and `Passes` say how the loop ends on the rest
of a file, whatever it has read before, so that they can be carried backwards over the
records.
-/

namespace TaskQueue
namespace Wal

open Lib

universe u v

/-- White space between JSON texts. -/
def jsonSpace : Bytes := [0x20, 0x09, 0x0D, 0x0A]

section Damage

variable {δ : Type u} {σ : Type v}

/-- What `json.Unmarshal` refuses: a text that is cut short, and one that goes on. -/
structure SelfDelimiting (J : EntryJson δ) : Prop where
  cut : ∀ e text k, J.marshal e = some text → k < text.length →
    J.unmarshal (text.take k) = none
  followed : ∀ e text b rest, J.marshal e = some text → b ∉ jsonSpace →
    J.unmarshal (text ++ b :: rest) = none

/-- One turn of the loop, by what the reading part found. -/
theorem replayLoop_of_read
    {bs : Bytes} {r : FrameRead}
    (h : readFrame bs = r)
    (J : EntryJson δ) (fn : σ → Entry δ → Except String σ)
    (validEnd recordCount lastSeq : Nat) (s : σ) :
    replayLoop J fn bs validEnd recordCount lastSeq s =
      match r with
      | .tail => .ok (s, lastSeq, validEnd)
      | .badMagic =>
          if recordCount = 0 then .error .badMagicAtStart
          else .error (.badMagic validEnd)
      | .badLength bodyLen =>
          if recordCount = 0 then .error .badLengthAtStart
          else .error (.badLength bodyLen validEnd)
      | .body body rest =>
          if bodyCRC body ≠ (crc32c (typeAndPayload body)).toNat then
            if rest = [] then .ok (s, lastSeq, validEnd)
            else
              .error (.crcMismatch validEnd (bodyCRC body)
                (crc32c (typeAndPayload body)).toNat)
          else
            match decodeEntry J body with
            | none => .error (.jsonDecode validEnd)
            | some entry =>
                match fn s entry with
                | .error msg => .error (.handler (bodySeq body) msg)
                | .ok s' =>
                    replayLoop J fn rest (validEnd + headerSize + body.length)
                      (recordCount + 1) (bodySeq body) s' := by
  rw [replayLoop]
  split
  all_goals
    rename_i hr
    rw [h] at hr
    subst hr
    rfl

/-- The loop ends with an error on these bytes, whatever the handler does. -/
def Fails (J : EntryJson δ) (σ : Type v) (bs : Bytes) : Prop :=
  ∀ (fn : σ → Entry δ → Except String σ) (validEnd recordCount lastSeq : Nat) (s : σ),
    ∃ err, replayLoop J fn bs validEnd recordCount lastSeq s = .error err

/-- The loop ends well on these bytes, if the handler takes every entry. -/
def Passes (J : EntryJson δ) (s : σ) (bs : Bytes) : Prop :=
  ∀ validEnd recordCount lastSeq : Nat,
    ∃ r, replayLoop J (fun s _ => .ok s) bs validEnd recordCount lastSeq s = .ok r

section Turns

variable {J : EntryJson δ} {bs rest : Bytes}

theorem Fails.of_badMagic
    (h : readFrame bs = .badMagic) :
    Fails J σ bs := by
  intro fn validEnd recordCount lastSeq s
  rw [replayLoop_of_read h]
  dsimp only
  split_ifs
  · exact ⟨_, rfl⟩
  · exact ⟨_, rfl⟩

theorem Fails.of_badLength
    {bodyLen : Nat}
    (h : readFrame bs = .badLength bodyLen) :
    Fails J σ bs := by
  intro fn validEnd recordCount lastSeq s
  rw [replayLoop_of_read h]
  dsimp only
  split_ifs
  · exact ⟨_, rfl⟩
  · exact ⟨_, rfl⟩

/-- A wrong checksum before the end of the file. -/
theorem Fails.of_checksum
    {body : Bytes}
    (h : readFrame bs = .body body rest)
    (hcrc : bodyCRC body ≠ (crc32c (typeAndPayload body)).toNat)
    (hrest : rest ≠ []) :
    Fails J σ bs := by
  intro fn validEnd recordCount lastSeq s
  rw [replayLoop_of_read h]
  dsimp only
  rw [if_pos hcrc, if_neg hrest]
  exact ⟨_, rfl⟩

/-- A body without an entry, with a right checksum or before the end of the file. -/
theorem Fails.of_json
    {body : Bytes}
    (h : readFrame bs = .body body rest)
    (hjson : decodeEntry J body = none)
    (hrest : rest ≠ [] ∨ bodyCRC body = (crc32c (typeAndPayload body)).toNat) :
    Fails J σ bs := by
  by_cases hcrc : bodyCRC body = (crc32c (typeAndPayload body)).toNat
  · intro fn validEnd recordCount lastSeq s
    rw [replayLoop_of_read h]
    dsimp only
    rw [if_neg (not_not.mpr hcrc), hjson]
    exact ⟨_, rfl⟩
  · exact Fails.of_checksum h hcrc (hrest.resolve_right hcrc)

theorem Fails.frame
    {body : Bytes} {e : Entry δ}
    (hbody : BodyOf J body e)
    (h : Fails J σ rest) :
    Fails J σ (Wal.frame body ++ rest) := by
  intro fn validEnd recordCount lastSeq s
  rw [replayLoop_frame hbody]
  split
  · exact ⟨_, rfl⟩
  · exact h fn _ _ _ _

theorem Fails.append
    {r : LogRecord δ} {rec : Bytes}
    (hrec : OnDisk J r rec)
    (h : Fails J σ rest) :
    Fails J σ (rec ++ rest) := by
  intro fn validEnd recordCount lastSeq s
  rw [replayLoop_onDisk hrec]
  split_ifs
  · exact ⟨_, rfl⟩
  · exact ⟨_, rfl⟩
  · split
    · exact ⟨_, rfl⟩
    · exact h fn _ _ _ _

theorem Fails.of_oversized
    {r : LogRecord δ} {rec : Bytes}
    (hrec : OnDisk J r rec)
    (hsize : maxBody < r.bodyLen)
    (rest : Bytes) :
    Fails J σ (rec ++ rest) := by
  intro fn validEnd recordCount lastSeq s
  rw [replayLoop_onDisk hrec, if_pos hsize]
  split_ifs
  · exact ⟨_, rfl⟩
  · exact ⟨_, rfl⟩

/-- An error behind whole records, or at one of them that is too long. -/
theorem Fails.records
    {file : List (LogRecord δ)} {recs : List Bytes}
    (hrecs : List.Forall₂ (OnDisk J) file recs)
    (h : ¬ Readable file ∨ Fails J σ rest) :
    Fails J σ (recs.flatten ++ rest) := by
  induction hrecs with
  | nil =>
      rcases h with h | h
      · exact absurd (fun r hr => by cases hr) h
      · exact h
  | @cons r rec file recs hrec _ ih =>
      rw [List.flatten_cons, List.append_assoc]
      by_cases hsize : maxBody < r.bodyLen
      · exact Fails.of_oversized hrec hsize _
      · refine Fails.append hrec (ih (h.imp_left ?_))
        intro hbad hread
        refine hbad ?_
        intro r' hr'
        rcases List.mem_cons.mp hr' with rfl | hr'
        · exact Nat.le_of_not_lt hsize
        · exact hread r' hr'

variable {s : σ}

theorem Passes.of_tail
    (h : readFrame bs = .tail) :
    Passes J s bs := by
  intro validEnd recordCount lastSeq
  rw [replayLoop_of_read h]
  exact ⟨_, rfl⟩

/-- A wrong checksum at the end of the file. -/
theorem Passes.of_checksum
    {body : Bytes}
    (h : readFrame bs = .body body [])
    (hcrc : bodyCRC body ≠ (crc32c (typeAndPayload body)).toNat) :
    Passes J s bs := by
  intro validEnd recordCount lastSeq
  rw [replayLoop_of_read h]
  dsimp only
  rw [if_pos hcrc, if_pos rfl]
  exact ⟨_, rfl⟩

theorem Passes.frame
    {body : Bytes} {e : Entry δ}
    (hbody : BodyOf J body e)
    (h : Passes J s rest) :
    Passes J s (Wal.frame body ++ rest) := by
  intro validEnd recordCount lastSeq
  rw [replayLoop_frame hbody]
  exact h _ _ _

/-- Whole records before something on which the loop ends well. -/
theorem Passes.records
    {file : List (LogRecord δ)} {recs : List Bytes}
    (hrecs : List.Forall₂ (OnDisk J) file recs)
    (hread : Readable file)
    (h : Passes J s rest) :
    Passes J s (recs.flatten ++ rest) := by
  induction hrecs with
  | nil =>
      exact h
  | @cons r rec file recs hrec _ ih =>
      intro validEnd recordCount lastSeq
      have hsize := hread r List.mem_cons_self
      rw [List.flatten_cons, List.append_assoc, replayLoop_onDisk hrec,
        if_neg (Nat.not_lt.mpr hsize)]
      exact ih (fun r' hr' => hread r' (List.mem_cons_of_mem r hr')) _ _ _

theorem Fails.replay
    (h : Fails J σ bs)
    (fn : σ → Entry δ → Except String σ) (s : σ) :
    ∃ err, Wal.replay J fn s bs = (.error err, bs) := by
  obtain ⟨err, herr⟩ := h fn 0 0 0 s
  refine ⟨err, ?_⟩
  rw [Wal.replay, herr]

theorem Passes.replay
    (h : Passes J s bs) :
    ∃ r file, Wal.replay J (fun s _ => .ok s) s bs = (.ok r, file) := by
  obtain ⟨⟨s', last, fin⟩, hloop⟩ := h 0 0 0
  refine ⟨(s', last), bs.take fin, ?_⟩
  rw [Wal.replay, hloop]

end Turns

/-- The parts of a record. -/
inductive Field
  | magic
  | length
  | seq
  | crc
  | data
deriving DecidableEq

/-- The part that a byte of a record belongs to. -/
def fieldAt (k : Nat) : Field :=
  if k < magicSize then .magic
  else if k < headerSize then .length
  else if k < headerSize + seqSize then .seq
  else if k < headerSize + seqSize + crcSize then .crc
  else .data

/-- The length field of a record. -/
def lengthField (rec : Bytes) : Nat :=
  unLe ((rec.drop magicSize).take lenSize)

/-- All records are of a size that `Replay` accepts, by their bytes. -/
def AllFit (recs : List Bytes) : Prop :=
  ∀ rec ∈ recs, rec.length ≤ headerSize + maxBody

/--
A wrong length is noticed if it is out of range, or if the body that it gives ends before the
file does, or ends with the file and happens to have the stored checksum.
-/
def LengthNoticed (n : Nat) (behind : Bytes) : Prop :=
  n < minBody ∨ maxBody < n ∨ n < behind.length ∨
    (n = behind.length ∧ bodyCRC behind = (crc32c (typeAndPayload behind)).toNat)

/--
When `Replay` notices that byte `k` of `rec` has become `v`, with the records `pre` before it
and `post` behind it.
-/
def Noticed (pre : List Bytes) (rec : Bytes) (post : List Bytes) (k : Nat) (v : UInt8) : Prop :=
  ¬ AllFit pre ∨
    match fieldAt k with
    | .magic => True
    | .length => LengthNoticed (lengthField (rec.set k v)) (rec.drop headerSize ++ post.flatten)
    | .seq => ¬ AllFit (rec :: post)
    | .crc => True
    | .data => True

section Set

variable {body : Bytes} {k : Nat} {v : UInt8}

theorem frame_set_magic
    (hk : k < magicSize) :
    (frame body).set k v = walMagic.set k v ++ (le lenSize body.length ++ body) := by
  rw [frame, List.set_append, if_pos (by exact hk)]

theorem frame_set_length
    (hk : magicSize ≤ k) (hk' : k < headerSize) :
    (frame body).set k v =
      walMagic ++ ((le lenSize body.length).set (k - magicSize) v ++ body) := by
  have hmagic : ¬ k < walMagic.length := by
    rw [show walMagic.length = magicSize from rfl]
    omega
  have hlen : k - walMagic.length < (le lenSize body.length).length := by
    rw [le_length, show walMagic.length = magicSize from rfl]
    simp only [headerSize] at hk'
    omega
  rw [frame, List.set_append, if_neg hmagic, List.set_append, if_pos hlen]
  rfl

theorem frame_set_body
    (hk : headerSize ≤ k) :
    (frame body).set k v = frame (body.set (k - headerSize) v) := by
  have hmagic : ¬ k < walMagic.length := by
    rw [show walMagic.length = magicSize from rfl]
    simp only [headerSize] at hk
    omega
  have hlen : ¬ k - walMagic.length < (le lenSize body.length).length := by
    rw [le_length, show walMagic.length = magicSize from rfl]
    simp only [headerSize] at hk
    omega
  rw [frame, List.set_append, if_neg hmagic, List.set_append, if_neg hlen, frame,
    List.length_set, le_length, Nat.sub_sub]
  rfl

end Set

theorem readFrame_badMagic
    {magicBuf : Bytes}
    (hlen : magicBuf.length = magicSize)
    (hne : magicBuf ≠ walMagic)
    (rest : Bytes) :
    readFrame (magicBuf ++ rest) = .badMagic := by
  rw [readFrame, readFull_append hlen]
  exact if_pos hne

/-- The reading part of an iteration at a right magic number. -/
theorem readFrame_length
    {lenBuf : Bytes}
    (hlen : lenBuf.length = lenSize)
    (behind : Bytes) :
    readFrame (walMagic ++ (lenBuf ++ behind)) =
      if unLe lenBuf < minBody ∨ maxBody < unLe lenBuf then
        .badLength (unLe lenBuf)
      else if behind.length < unLe lenBuf then
        .tail
      else
        .body (behind.take (unLe lenBuf)) (behind.drop (unLe lenBuf)) := by
  have hmagic : readFull magicSize (walMagic ++ (lenBuf ++ behind)) =
      some (walMagic, lenBuf ++ behind) := readFull_append rfl _
  rw [readFrame, hmagic]
  dsimp only
  rw [if_neg (not_not.mpr rfl), readFull_append hlen]
  dsimp only
  split_ifs with hrange hshort
  · rfl
  · rw [readFull_short hshort]
  · rw [readFull, if_neg hshort]

section Body

variable {J : EntryJson δ} {body : Bytes} {j : Nat} {b v : UInt8}

/-- The sequence number is outside of what the checksum is about. -/
theorem checksum_set_seq
    (v : UInt8)
    (hj : j < seqSize) :
    bodyCRC (body.set j v) = bodyCRC body ∧
      typeAndPayload (body.set j v) = typeAndPayload body := by
  constructor
  · rw [bodyCRC, List.drop_set, if_pos hj, bodyCRC]
  · rw [typeAndPayload, List.drop_set, if_pos (by omega), typeAndPayload]

/-- Another number in the body of a record gives a body that is accepted too. -/
theorem BodyOf.set_seq
    {e : Entry δ}
    (h : BodyOf J body e)
    (v : UInt8)
    (hj : j < seqSize) :
    ∃ e', BodyOf J (body.set j v) e' := by
  obtain ⟨hcrc, hdata⟩ : bodyCRC (body.set j v) = bodyCRC body ∧
      typeAndPayload (body.set j v) = typeAndPayload body := checksum_set_seq v hj
  obtain ⟨e', hdecoded⟩ : ∃ e', decodeEntry J (body.set j v) = some e' := by
    obtain ⟨e₀, hjson, -⟩ := Option.map_eq_some_iff.mp h.decoded
    rw [decodeEntry, hdata, hjson]
    exact ⟨_, rfl⟩
  refine ⟨e', ?_, ?_, ?_, hdecoded⟩
  · rw [List.length_set]
    exact h.min
  · rw [List.length_set]
    exact h.max
  · rw [hcrc, hdata]
    exact h.checksum

/-- Any other byte of a body is. -/
theorem checksum_set_ne
    (h : bodyCRC body = (crc32c (typeAndPayload body)).toNat)
    (hb : body[j]? = some b)
    (hv : v ≠ b)
    (hj : seqSize ≤ j) :
    bodyCRC (body.set j v) ≠ (crc32c (typeAndPayload (body.set j v))).toNat := by
  have hdrop : (body.set j v).drop seqSize = (body.drop seqSize).set (j - seqSize) v := by
    rw [List.drop_set, if_neg (Nat.not_lt.mpr hj)]
  by_cases hcrc : j < seqSize + crcSize
  · have hdata : typeAndPayload (body.set j v) = typeAndPayload body := by
      rw [typeAndPayload, List.drop_set, if_pos hcrc, typeAndPayload]
    have hget : ((body.drop seqSize).take crcSize)[j - seqSize]? = some b := by
      rw [List.getElem?_take_of_lt (by omega), List.getElem?_drop, Nat.add_sub_cancel' hj, hb]
    rw [hdata, ← h, bodyCRC, hdrop, List.take_set]
    exact unLe_set_ne hget hv
  · have hdata : typeAndPayload (body.set j v) =
        (typeAndPayload body).set (j - (seqSize + crcSize)) v := by
      rw [typeAndPayload, List.drop_set, if_neg hcrc, typeAndPayload]
    have hget : (typeAndPayload body)[j - (seqSize + crcSize)]? = some b := by
      rw [typeAndPayload, List.getElem?_drop, Nat.add_sub_cancel' (by omega), hb]
    have hsame : bodyCRC (body.set j v) = bodyCRC body := by
      rw [bodyCRC, hdrop, List.take_set, List.set_eq_of_length_le, bodyCRC]
      rw [List.length_take]
      omega
    rw [hdata, hsame, h]
    intro heq
    exact crc32c_set_ne hget hv (UInt32.toNat_inj.mp heq).symm

theorem typeAndPayload_tail
    (bs : Bytes) :
    (typeAndPayload bs).tail = bs.drop minBody := by
  rw [typeAndPayload, List.tail_drop]
  rfl

/-- With a wrong length, the body of a record and what follows it hold no entry. -/
theorem decodeEntry_wrong_length
    (hJ : SelfDelimiting J)
    {e : Entry δ} {payload after : Bytes} {n : Nat}
    (hm : J.marshal e = some payload)
    (hb : b ∉ jsonSpace)
    (hmin : minBody ≤ n)
    (hn : n ≠ minBody + payload.length) :
    decodeEntry J ((recordBody e.seq e.type payload ++ b :: after).take n) = none := by
  have hpayload : (recordBody e.seq e.type payload).drop minBody = payload := by
    rw [← typeAndPayload_tail, typeAndPayload_recordBody, List.tail_cons]
  have htext : (typeAndPayload ((recordBody e.seq e.type payload ++ b :: after).take n)).tail =
      (payload ++ b :: after).take (n - minBody) := by
    rw [typeAndPayload_tail, List.drop_take, List.drop_append_of_le_length, hpayload]
    rw [recordBody_length]
    omega
  have hjson : J.unmarshal ((payload ++ b :: after).take (n - minBody)) = none := by
    by_cases hshort : n - minBody < payload.length
    · rw [List.take_append_of_le_length hshort.le]
      exact hJ.cut e payload _ hm hshort
    · obtain ⟨m, hm'⟩ : ∃ m, n - minBody - payload.length = m + 1 :=
        ⟨n - minBody - payload.length - 1, by omega⟩
      rw [List.take_append, List.take_of_length_le (by omega), hm', List.take_succ_cons]
      exact hJ.followed e payload b _ hm hb
  rw [decodeEntry, htext, hjson, Option.map_none]

end Body

theorem allFit_iff
    {J : EntryJson δ} {file : List (LogRecord δ)} {recs : List Bytes}
    (h : List.Forall₂ (OnDisk J) file recs) :
    AllFit recs ↔ Readable file := by
  induction h with
  | nil =>
      simp [AllFit, Readable]
  | @cons r rec file recs hrec _ ih =>
      have hlen := hrec.length
      simp only [AllFit, Readable, List.forall_mem_cons] at ih ⊢
      rw [ih, hlen]
      constructor
      · rintro ⟨hfit, hrest⟩
        exact ⟨by omega, hrest⟩
      · rintro ⟨hfit, hrest⟩
        exact ⟨by omega, hrest⟩

/-- The bytes of a record start with the magic number. -/
theorem OnDisk.starts
    {J : EntryJson δ} {r : LogRecord δ} {rec : Bytes}
    (h : OnDisk J r rec) :
    ∃ rest, rec = 0xAA :: rest := by
  obtain ⟨payload, -, rfl, -⟩ := h.shape
  exact ⟨_, rfl⟩

section Damaged

variable {J : EntryJson δ} {r : LogRecord δ} {rec : Bytes} {k : Nat} {b v : UInt8}

theorem damaged_magic_fails
    (hrec : OnDisk J r rec)
    (hb : rec[k]? = some b)
    (hv : v ≠ b)
    (hk : k < magicSize)
    (rest : Bytes) :
    Fails J σ (rec.set k v ++ rest) := by
  obtain ⟨payload, -, rfl, -⟩ := hrec.shape
  have hget : walMagic[k]? = some b := by
    rwa [frame, List.getElem?_append_left (by exact hk)] at hb
  rw [frame_set_magic hk, List.append_assoc]
  exact Fails.of_badMagic (readFrame_badMagic (List.length_set) (set_ne_self hget hv) _)

theorem lengthField_append
    {lenBuf : Bytes}
    (hlen : lenBuf.length = lenSize)
    (rest : Bytes) :
    lengthField (walMagic ++ (lenBuf ++ rest)) = unLe lenBuf := by
  have hdrop : (walMagic ++ (lenBuf ++ rest)).drop magicSize = lenBuf ++ rest := rfl
  rw [lengthField, hdrop, ← hlen, List.take_left]

/-- What is read at a record with a damaged length. -/
theorem readFrame_damaged_length
    (hrec : OnDisk J r rec)
    (hk : magicSize ≤ k) (hk' : k < headerSize)
    (v : UInt8) (rest : Bytes) :
    readFrame (rec.set k v ++ rest) =
      if lengthField (rec.set k v) < minBody ∨ maxBody < lengthField (rec.set k v) then
        .badLength (lengthField (rec.set k v))
      else if (rec.drop headerSize ++ rest).length < lengthField (rec.set k v) then
        .tail
      else
        .body ((rec.drop headerSize ++ rest).take (lengthField (rec.set k v)))
          ((rec.drop headerSize ++ rest).drop (lengthField (rec.set k v))) := by
  obtain ⟨payload, -, rfl, -⟩ := hrec.shape
  have hlen : ((le lenSize (recordBody r.entry.seq r.entry.type payload).length).set
      (k - magicSize) v).length = lenSize := by
    rw [List.length_set, le_length]
  rw [frame_set_length hk hk', lengthField_append hlen, List.append_assoc, List.append_assoc,
    readFrame_length hlen]
  rfl

theorem lengthField_damaged_ne
    (hrec : OnDisk J r rec)
    (hb : rec[k]? = some b)
    (hv : v ≠ b)
    (hk : magicSize ≤ k) (hk' : k < headerSize) :
    lengthField (rec.set k v) ≠ r.bodyLen := by
  obtain ⟨payload, -, rfl, hbody, -, hmax⟩ := hrec.shape
  have hsub : k - magicSize < lenSize := by
    simp only [headerSize] at hk'
    omega
  have hget : (le lenSize r.bodyLen)[k - magicSize]? = some b := by
    rw [frame, List.getElem?_append_right hk, hbody, List.getElem?_append_left] at hb
    · exact hb
    · rw [le_length]
      exact hsub
  have hvalue : unLe (le lenSize r.bodyLen) = r.bodyLen := by
    apply unLe_le
    simp only [lenSize, maxUint32] at hmax ⊢
    omega
  rw [frame_set_length hk hk', lengthField_append (by rw [List.length_set, le_length]), hbody]
  have hne := unLe_set_ne hget hv
  rwa [hvalue] at hne

/-- A body with a wrong length, in front of another record, holds no entry. -/
theorem decodeEntry_damaged_length
    (hJ : SelfDelimiting J)
    (hrec : OnDisk J r rec)
    {n : Nat}
    (hmin : minBody ≤ n)
    (hn : n ≠ r.bodyLen)
    (rest : Bytes) :
    decodeEntry J ((rec.drop headerSize ++ 0xAA :: rest).take n) = none := by
  obtain ⟨payload, hm, rfl, hbody, -⟩ := hrec.shape
  rw [recordBody_length] at hbody
  exact decodeEntry_wrong_length hJ hm (by decide) hmin (hbody ▸ hn)

theorem damaged_length_fails
    (hJ : SelfDelimiting J)
    (hrec : OnDisk J r rec)
    (hb : rec[k]? = some b)
    (hv : v ≠ b)
    (hk : magicSize ≤ k) (hk' : k < headerSize)
    {rest : Bytes}
    (h : LengthNoticed (lengthField (rec.set k v)) (rec.drop headerSize ++ 0xAA :: rest)) :
    Fails J σ (rec.set k v ++ 0xAA :: rest) := by
  have hread := readFrame_damaged_length hrec hk hk' v (0xAA :: rest)
  have hne := lengthField_damaged_ne hrec hb hv hk hk'
  unfold LengthNoticed at h
  generalize lengthField (rec.set k v) = n at hread hne h
  split_ifs at hread with hrange hshort
  · exact Fails.of_badLength hread
  · omega
  · have hjson := decodeEntry_damaged_length hJ hrec (n := n) (by omega) hne rest
    refine Fails.of_json hread hjson ?_
    rcases h with h | h | h | ⟨h, hcrc⟩
    · omega
    · omega
    · left
      rw [ne_eq, List.drop_eq_nil_iff]
      omega
    · right
      rw [List.take_of_length_le h.ge]
      exact hcrc

theorem damaged_length_passes
    (hrec : OnDisk J r rec)
    (hk : magicSize ≤ k) (hk' : k < headerSize)
    {rest : Bytes}
    (h : ¬ LengthNoticed (lengthField (rec.set k v)) (rec.drop headerSize ++ rest))
    (s : σ) :
    Passes J s (rec.set k v ++ rest) := by
  have hread := readFrame_damaged_length hrec hk hk' v rest
  unfold LengthNoticed at h
  generalize lengthField (rec.set k v) = n at hread h
  split_ifs at hread with hrange hshort
  · omega
  · exact Passes.of_tail hread
  · have hn : n = (rec.drop headerSize ++ rest).length := by omega
    rw [List.take_of_length_le hn.ge, List.drop_of_length_le hn.ge] at hread
    exact Passes.of_checksum hread (fun hcrc => h (Or.inr (Or.inr (Or.inr ⟨hn, hcrc⟩))))

/-- Damage in the body of a record that is too long is not looked at. -/
theorem damaged_oversized_fails
    (hrec : OnDisk J r rec)
    (hsize : maxBody < r.bodyLen)
    (hk : headerSize ≤ k)
    (v : UInt8) (rest : Bytes) :
    Fails J σ (rec.set k v ++ rest) := by
  obtain ⟨payload, -, rfl, hbody, -, hmax⟩ := hrec.shape
  rw [frame_set_body hk]
  refine Fails.of_badLength (readFrame_oversized ?_ ?_ rest)
  · rwa [List.length_set, hbody]
  · rwa [List.length_set, hbody]

/-- The body of a record that is not too long. -/
theorem OnDisk.bodyOf
    (hrec : OnDisk J r rec)
    (hsize : r.bodyLen ≤ maxBody) :
    ∃ body, rec = frame body ∧ BodyOf J body r.entry := by
  have hrecorded : Recorded J r.entry rec :=
    ⟨hrec.encoded, by rw [hrec.length]; omega, hrec.number⟩
  exact hrecorded.bodyOf

theorem damaged_body_fails
    (hrec : OnDisk J r rec)
    (hb : rec[k]? = some b)
    (hv : v ≠ b)
    (hk : headerSize + seqSize ≤ k)
    {rest : Bytes}
    (hrest : rest ≠ []) :
    Fails J σ (rec.set k v ++ rest) := by
  by_cases hsize : maxBody < r.bodyLen
  · exact damaged_oversized_fails hrec hsize (by omega) v rest
  · obtain ⟨body, rfl, hbody⟩ := hrec.bodyOf (Nat.le_of_not_lt hsize)
    have hget : body[k - headerSize]? = some b := by
      rw [frame, ← List.append_assoc, List.getElem?_append_right] at hb
      · rwa [List.length_append, le_length] at hb
      · rw [List.length_append, le_length]
        exact (Nat.le_add_right _ _).trans hk
    rw [frame_set_body (by omega)]
    refine Fails.of_checksum (readFrame_frame ?_ ?_ rest) ?_ hrest
    · rw [List.length_set]
      exact hbody.min
    · rw [List.length_set]
      exact hbody.max
    · exact checksum_set_ne hbody.checksum hget hv (by omega)

/-- With another sequence number, the replay goes on behind the record. -/
theorem damaged_seq_frame
    (hrec : OnDisk J r rec)
    (hsize : r.bodyLen ≤ maxBody)
    (hk : headerSize ≤ k) (hk' : k < headerSize + seqSize)
    (v : UInt8) :
    ∃ body e, rec.set k v = frame body ∧ BodyOf J body e := by
  obtain ⟨body, rfl, hbody⟩ := hrec.bodyOf hsize
  obtain ⟨e', hbody'⟩ := hbody.set_seq v (j := k - headerSize) (by omega)
  exact ⟨body.set (k - headerSize) v, e', frame_set_body hk, hbody'⟩

end Damaged

section Log

variable {J : EntryJson δ} {before after : List (LogRecord δ)} {pre post : List Bytes}
variable {r : LogRecord δ} {rec : Bytes} {k : Nat} {b v : UInt8}

/-- The bytes behind a record that is not the last. -/
theorem flatten_starts
    (hpost : List.Forall₂ (OnDisk J) after post)
    (hlast : post ≠ []) :
    ∃ rest, post.flatten = 0xAA :: rest := by
  cases hpost with
  | nil =>
      exact absurd rfl hlast
  | cons hrec _ =>
      obtain ⟨rest, rfl⟩ := hrec.starts
      exact ⟨_, rfl⟩

theorem noticed_fails
    (hJ : SelfDelimiting J)
    (hpre : List.Forall₂ (OnDisk J) before pre)
    (hrec : OnDisk J r rec)
    (hpost : List.Forall₂ (OnDisk J) after post)
    (hlast : post ≠ [])
    (hb : rec[k]? = some b)
    (hv : v ≠ b)
    (h : Noticed pre rec post k v) :
    Fails J σ (pre.flatten ++ (rec.set k v ++ post.flatten)) := by
  refine Fails.records hpre (h.imp (fun hfit => (allFit_iff hpre).not.mp hfit) ?_)
  obtain ⟨rest, hstarts⟩ := flatten_starts hpost hlast
  intro h
  unfold fieldAt at h
  split_ifs at h with hmagic hlen hseq hcrc
  · exact damaged_magic_fails hrec hb hv hmagic _
  · rw [hstarts] at h ⊢
    exact damaged_length_fails hJ hrec hb hv (Nat.le_of_not_lt hmagic) hlen h
  · by_cases hsize : maxBody < r.bodyLen
    · exact damaged_oversized_fails hrec hsize (Nat.le_of_not_lt hlen) v _
    · obtain ⟨body, e', hframe, hbody⟩ := damaged_seq_frame hrec (Nat.le_of_not_lt hsize)
        (Nat.le_of_not_lt hlen) hseq v
      have hpostbad : ¬ Readable after := by
        intro hread
        refine h ((allFit_iff (.cons hrec hpost)).mpr ?_)
        intro r' hr'
        rcases List.mem_cons.mp hr' with rfl | hr'
        · exact Nat.le_of_not_lt hsize
        · exact hread r' hr'
      have hrest : Fails J σ (post.flatten ++ []) := Fails.records hpost (Or.inl hpostbad)
      rw [List.append_nil] at hrest
      rw [hframe]
      exact hrest.frame hbody
  · exact damaged_body_fails hrec hb hv (Nat.le_of_not_lt hseq) (by simp [hstarts])
  · exact damaged_body_fails hrec hb hv (Nat.le_of_not_lt hseq) (by simp [hstarts])

theorem not_noticed_passes
    (hpre : List.Forall₂ (OnDisk J) before pre)
    (hrec : OnDisk J r rec)
    (hpost : List.Forall₂ (OnDisk J) after post)
    (h : ¬ Noticed pre rec post k v)
    (s : σ) :
    Passes J s (pre.flatten ++ (rec.set k v ++ post.flatten)) := by
  rw [Noticed, not_or, not_not] at h
  refine Passes.records hpre ((allFit_iff hpre).mp h.1) ?_
  obtain ⟨-, h⟩ := h
  unfold fieldAt at h
  split_ifs at h with hmagic hlen hseq hcrc
  · exact absurd trivial h
  · exact damaged_length_passes hrec (Nat.le_of_not_lt hmagic) hlen h s
  · have hread := (allFit_iff (.cons hrec hpost)).mp (not_not.mp h)
    obtain ⟨body, e', hframe, hbody⟩ := damaged_seq_frame hrec (hread r List.mem_cons_self)
      (Nat.le_of_not_lt hlen) hseq v
    have hrest : Passes J s post.flatten := by
      rw [← List.append_nil post.flatten]
      refine Passes.records hpost (fun r' hr' => hread r' (List.mem_cons_of_mem r hr')) ?_
      exact Passes.of_tail rfl
    rw [hframe]
    exact hrest.frame hbody
  · exact absurd trivial h
  · exact absurd trivial h

/--
A record that is not the last has one byte of a different value: `Replay` returns an error and
leaves the file alone, whatever the handler does, if and only if the damage is `Noticed`.
-/
theorem damage_noticed_iff
    (hJ : SelfDelimiting J)
    (hpre : List.Forall₂ (OnDisk J) before pre)
    (hrec : OnDisk J r rec)
    (hpost : List.Forall₂ (OnDisk J) after post)
    (hlast : post ≠ [])
    (hb : rec[k]? = some b)
    (hv : v ≠ b)
    (s : σ) :
    (∀ fn : σ → Entry δ → Except String σ, ∃ err,
        replay J fn s (pre ++ rec.set k v :: post).flatten =
          (.error err, (pre ++ rec.set k v :: post).flatten)) ↔
      Noticed pre rec post k v := by
  rw [List.flatten_append, List.flatten_cons]
  constructor
  · intro hall
    by_contra h
    obtain ⟨err, herr⟩ := hall (fun s _ => .ok s)
    obtain ⟨res, file, hok⟩ := (not_noticed_passes hpre hrec hpost h s).replay
    rw [hok] at herr
    cases herr
  · intro h fn
    exact (noticed_fails hJ hpre hrec hpost hlast hb hv h).replay fn s

end Log

theorem asciiBytes_length
    (text : String) :
    (asciiBytes text).length = text.length := by
  rw [asciiBytes, List.length_map, String.length_toList]

/-- The texts of the two entries have one length. -/
theorem twoEntriesJson_length
    {e : Entry Bytes} {text : Bytes}
    (h : twoEntriesJson.marshal e = some text) :
    text.length = 39 := by
  unfold twoEntriesJson at h
  dsimp only at h
  split_ifs at h
  · rw [← Option.some.inj h, asciiBytes_length]
    rfl
  · rw [← Option.some.inj h, asciiBytes_length]
    rfl

theorem twoEntriesJson_refuses
    {text : Bytes}
    (h : text.length ≠ 39) :
    twoEntriesJson.unmarshal text = none := by
  unfold twoEntriesJson
  dsimp only
  split_ifs with hfirst hsecond
  · rw [hfirst, asciiBytes_length] at h
    exact absurd rfl h
  · rw [hsecond, asciiBytes_length] at h
    exact absurd rfl h
  · rfl

theorem twoEntriesJson_selfDelimiting : SelfDelimiting twoEntriesJson where
  cut := by
    intro e text k hm hk
    have hlen := twoEntriesJson_length hm
    apply twoEntriesJson_refuses
    rw [List.length_take]
    omega
  followed := by
    intro e text b rest hm _
    have hlen := twoEntriesJson_length hm
    apply twoEntriesJson_refuses
    rw [List.length_append, List.length_cons]
    omega

theorem twoRecords_onDisk :
    OnDisk twoEntriesJson ⟨firstEntry, 52⟩ (twoRecords.getD 0 []) ∧
      List.Forall₂ (OnDisk twoEntriesJson) [⟨secondEntry, 52⟩] (twoRecords.drop 1) :=
  ⟨⟨by decide +kernel, by decide +kernel, by decide⟩,
    .cons ⟨by decide +kernel, by decide +kernel, by decide⟩ .nil⟩

/-- The type of the first of two entries is damaged. -/
theorem damage_noticed_iff_type :
    Noticed [] (twoRecords.getD 0 []) (twoRecords.drop 1) 18 7 ∧
      ∀ fn : Nat → Entry Bytes → Except String Nat, ∃ err,
        replay twoEntriesJson fn 0
            ([] ++ (twoRecords.getD 0 []).set 18 7 :: twoRecords.drop 1).flatten =
          (.error err, ([] ++ (twoRecords.getD 0 []).set 18 7 :: twoRecords.drop 1).flatten) := by
  have hnoticed : Noticed [] (twoRecords.getD 0 []) (twoRecords.drop 1) 18 7 := Or.inr trivial
  have hbyte : (twoRecords.getD 0 [])[18]? = some 2 := by decide +kernel
  exact ⟨hnoticed, (damage_noticed_iff twoEntriesJson_selfDelimiting .nil twoRecords_onDisk.1
    twoRecords_onDisk.2 (List.cons_ne_nil _ _) hbyte (by decide) 0).mpr hnoticed⟩

/--
The first of two records is damaged.  Another sequence number is delivered; a length that
points behind the file makes `Replay` truncate both records away.
-/
theorem damage_unnoticed :
    (replay twoEntriesJson collect []
        ((twoRecords.getD 0 []).set 6 9 :: twoRecords.drop 1).flatten).1.toOption =
      some ([{ firstEntry with seq := 9 }, secondEntry], 2) ∧
    (replay twoEntriesJson collect []
        ((twoRecords.getD 0 []).set 3 1 :: twoRecords.drop 1).flatten).1.toOption =
      some ([], 0) ∧
    (replay twoEntriesJson collect []
        ((twoRecords.getD 0 []).set 3 1 :: twoRecords.drop 1).flatten).2 = [] := by
  decide +kernel

end Damage

end Wal
end TaskQueue
