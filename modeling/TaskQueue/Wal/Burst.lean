import TaskQueue.Lib.Burst
import TaskQueue.Wal.Damage

/-!
# Bursts in the log

What `Replay` makes of a log of which up to four bytes in a row have changed, in the type and
the payload of one record or in its checksum.  `TaskQueue.Wal.Damage` treats one changed
byte anywhere; here the change may be a burst of up to 32 bits, wherever it starts, that
leaves the header and the number of the record alone.

The record is never delivered.  If others follow it, `Replay` reports an error and leaves the
file alone; if it is the last one, `Replay` delivers the records before it and cuts it off.
-/

namespace TaskQueue
namespace Wal

open Lib

universe u v

section Burst

variable {δ : Type u} {σ : Type v}

/--
`body'` is `body` with at most four bytes in a row changed, in the checksum or in what the
checksum is about.
-/
inductive Burst : Bytes → Bytes → Prop
  | checksum (seq crc crc' data : Bytes)
      (hseq : seq.length = seqSize)
      (hcrc : crc.length = crcSize)
      (hlen : crc'.length = crc.length)
      (hne : crc' ≠ crc) :
      Burst (seq ++ (crc ++ data)) (seq ++ (crc' ++ data))
  | data (seq crc before w w' after : Bytes)
      (hseq : seq.length = seqSize)
      (hcrc : crc.length = crcSize)
      (hlen : w'.length = w.length)
      (hburst : w.length ≤ 4)
      (hne : w' ≠ w) :
      Burst (seq ++ (crc ++ (before ++ (w ++ after)))) (seq ++ (crc ++ (before ++ (w' ++ after))))

theorem Burst.length_eq
    {body body' : Bytes}
    (h : Burst body body') :
    body'.length = body.length := by
  cases h with
  | checksum seq crc crc' data hseq hcrc hlen hne =>
      simp [hlen]
  | data seq crc before w w' after hseq hcrc hlen hburst hne =>
      simp [hlen]

/-- The checksum that a body holds. -/
theorem bodyCRC_append
    {seq crc data : Bytes}
    (hseq : seq.length = seqSize)
    (hcrc : crc.length = crcSize) :
    bodyCRC (seq ++ (crc ++ data)) = unLe crc := by
  rw [bodyCRC, ← hseq, List.drop_left, ← hcrc, List.take_left]

/-- What the checksum of a body is about. -/
theorem typeAndPayload_append
    {seq crc data : Bytes}
    (hseq : seq.length = seqSize)
    (hcrc : crc.length = crcSize) :
    typeAndPayload (seq ++ (crc ++ data)) = data := by
  have hlen : (seq ++ crc).length = seqSize + crcSize := by
    rw [List.length_append, hseq, hcrc]
  rw [typeAndPayload, ← List.append_assoc, ← hlen, List.drop_left]

/-- After a burst the checksum is wrong. -/
theorem Burst.checksum_ne
    {body body' : Bytes}
    (h : Burst body body')
    (hok : bodyCRC body = (crc32c (typeAndPayload body)).toNat) :
    bodyCRC body' ≠ (crc32c (typeAndPayload body')).toNat := by
  cases h with
  | checksum seq crc crc' data hseq hcrc hlen hne =>
      rw [bodyCRC_append hseq hcrc, typeAndPayload_append hseq hcrc] at hok
      rw [bodyCRC_append hseq (hlen.trans hcrc), typeAndPayload_append hseq (hlen.trans hcrc),
        ← hok]
      exact fun heq => hne (unLe_injective hlen heq)
  | data seq crc before w w' after hseq hcrc hlen hburst hne =>
      rw [bodyCRC_append hseq hcrc, typeAndPayload_append hseq hcrc] at hok
      rw [bodyCRC_append hseq hcrc, typeAndPayload_append hseq hcrc, hok]
      exact fun heq => crc32c_burst_ne hlen hburst hne (UInt32.toNat_inj.mp heq).symm

variable {J : EntryJson δ} {es : List (Entry δ)} {pre post : List Bytes}
variable {e : Entry δ} {body body' : Bytes}

/-- The reading part of an iteration finds the changed body. -/
theorem Burst.readFrame
    (h : Burst body body')
    (hbody : BodyOf J body e)
    (rest : Bytes) :
    Wal.readFrame (frame body' ++ rest) = .body body' rest := by
  refine readFrame_frame ?_ ?_ rest
  · rw [h.length_eq]
    exact hbody.min
  · rw [h.length_eq]
    exact hbody.max

/-- The loop fails at the changed record if something follows it, and ends there if not. -/
theorem Burst.replayLoop
    (h : Burst body body')
    (hbody : BodyOf J body e)
    (rest : Bytes)
    (fn : σ → Entry δ → Except String σ) (validEnd recordCount lastSeq : Nat) (s : σ) :
    Wal.replayLoop J fn (frame body' ++ rest) validEnd recordCount lastSeq s =
      if rest = [] then .ok (s, lastSeq, validEnd)
      else
        .error (.crcMismatch validEnd (bodyCRC body') (crc32c (typeAndPayload body')).toNat) := by
  rw [replayLoop_of_read (h.readFrame hbody rest)]
  exact if_pos (h.checksum_ne hbody.checksum)

/--
A record with a changed checksum, or with a burst of up to four bytes in its type and payload, is
never delivered.  If other bytes follow, `Replay` returns an error and leaves the file alone, once
the handler has taken the records before it; if not, `Replay` delivers exactly the records before
it and cuts the changed one off.
-/
theorem burst_never_delivered
    (hpre : List.Forall₂ (Recorded J) es pre)
    (hbody : BodyOf J body e)
    (hburst : Burst body body')
    (rest : Bytes)
    (fn : σ → Entry δ → Except String σ) (s s' : σ)
    (hfn : es.foldlM fn s = .ok s') :
    replay J fn s (pre.flatten ++ (frame body' ++ rest)) =
      if rest = [] then (.ok (s', lastSeqOf es 0), pre.flatten)
      else
        (.error (.crcMismatch pre.flatten.length (bodyCRC body')
            (crc32c (typeAndPayload body')).toNat),
          pre.flatten ++ (frame body' ++ rest)) := by
  unfold replay
  rw [replayLoop_records hpre hfn, hburst.replayLoop hbody]
  split_ifs with hlast
  · simp [hlast]
  · simp

/-- The body of the second of two records. -/
def secondBody : Bytes := (twoRecords.getD 1 []).drop headerSize

/-- The same with four bytes of the payload overwritten. -/
def overwrittenBody : Bytes :=
  secondBody.take 20 ++ ([0x30, 0x30, 0x30, 0x30] ++ secondBody.drop 24)

theorem overwrittenBody_burst : Burst secondBody overwrittenBody := by
  have hold : secondBody = secondBody.take 8 ++ ((secondBody.drop 8).take 4 ++
      ((secondBody.drop 12).take 8 ++ ((secondBody.drop 20).take 4 ++ secondBody.drop 24))) := by
    decide +kernel
  have hnew : overwrittenBody = secondBody.take 8 ++ ((secondBody.drop 8).take 4 ++
      ((secondBody.drop 12).take 8 ++ ([0x30, 0x30, 0x30, 0x30] ++ secondBody.drop 24))) := by
    decide +kernel
  rw [hold, hnew]
  exact .data _ _ _ _ _ _ (by decide +kernel) (by decide +kernel) (by decide +kernel)
    (by decide +kernel) (by decide +kernel)

theorem burst_never_delivered_second :
    replay twoEntriesJson collect [] (twoRecords.take 1 ++ [frame overwrittenBody]).flatten =
      (.ok ([firstEntry], 1), (twoRecords.take 1).flatten) := by
  have hpre : List.Forall₂ (Recorded twoEntriesJson) [firstEntry] (twoRecords.take 1) :=
    List.forall₂_take 1 twoRecords_recorded
  have hbody : BodyOf twoEntriesJson secondBody secondEntry :=
    ⟨by decide +kernel, by decide +kernel, by decide +kernel, by decide +kernel⟩
  have h := burst_never_delivered hpre hbody overwrittenBody_burst [] collect [] [firstEntry] rfl
  simpa [lastSeqOf, firstEntry] using h

end Burst

end Wal
end TaskQueue
