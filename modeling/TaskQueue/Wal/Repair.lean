import Mathlib.Tactic
import TaskQueue.Lib.Pieces
import TaskQueue.Wal.Append

/-!
# Replay as a repair of the file

`Replay` of `internal/wal/wal.go` on an arbitrary byte string.  When it succeeds, the
file is a list of whole frames, each of them delivered to the handler, followed by what
is cut off: a frame that the end of the file cuts short, or a last frame whose checksum is
wrong (`replayLoop_ok`).  `replay_repairs` adds what is on disk afterwards, and that a
second `Replay` finds nothing to repair.

`replay_prefix` is the same for the bytes that `encodeRecord` writes, cut at an arbitrary
byte.
-/

namespace TaskQueue
namespace Wal

open Lib

universe u v

section Repair

variable {δ : Type u} {σ : Type v}

/--
What `Replay` cuts off at the end of a file: nothing or less than a magic number, a magic
number with its length field or its body cut short, or a frame with a wrong checksum.
-/
inductive CutOff : Bytes → Prop
  | short (rest : Bytes) (h : rest.length < magicSize) : CutOff rest
  | cutLength (lenBuf : Bytes) (h : lenBuf.length < lenSize) : CutOff (walMagic ++ lenBuf)
  | cutBody (lenBuf body : Bytes)
      (hlen : lenBuf.length = lenSize)
      (hmin : minBody ≤ unLe lenBuf)
      (hmax : unLe lenBuf ≤ maxBody)
      (h : body.length < unLe lenBuf) :
      CutOff (walMagic ++ (lenBuf ++ body))
  | badChecksum (body : Bytes)
      (hmin : minBody ≤ body.length)
      (hmax : body.length ≤ maxBody)
      (h : bodyCRC body ≠ (crc32c (typeAndPayload body)).toNat) :
      CutOff (frame body)

/-- What the reading part of an iteration finds. -/
theorem readFrame_cases
    (bs : Bytes) :
    match readFrame bs with
    | .tail => CutOff bs
    | .body body rest =>
        bs = frame body ++ rest ∧ minBody ≤ body.length ∧ body.length ≤ maxBody
    | _ => True := by
  unfold readFrame
  cases hmagic : readFull magicSize bs with
  | none =>
      exact CutOff.short bs (readFull_none hmagic)
  | some r =>
      obtain ⟨magicBuf, bs₁⟩ := r
      obtain ⟨rfl, -⟩ := readFull_some hmagic
      by_cases hm : magicBuf = walMagic
      · subst hm
        simp only [ne_eq, not_true_eq_false, if_false]
        cases hlen : readFull lenSize bs₁ with
        | none =>
            exact CutOff.cutLength bs₁ (readFull_none hlen)
        | some r =>
            obtain ⟨lenBuf, bs₂⟩ := r
            obtain ⟨rfl, hlenBuf⟩ := readFull_some hlen
            dsimp only
            split_ifs with hbad
            · trivial
            · cases hbody : readFull (unLe lenBuf) bs₂ with
              | none =>
                  exact CutOff.cutBody lenBuf bs₂ hlenBuf (by omega) (by omega)
                    (readFull_none hbody)
              | some r =>
                  obtain ⟨body, rest⟩ := r
                  obtain ⟨rfl, hbodyLen⟩ := readFull_some hbody
                  have hle : le lenSize body.length = lenBuf := by
                    rw [hbodyLen, ← hlenBuf]
                    exact le_unLe lenBuf
                  refine ⟨?_, by omega, by omega⟩
                  rw [frame, hle, List.append_assoc, List.append_assoc]
      · simp only [ne_eq, hm, not_false_eq_true, if_true]

/-- The frames of the given bodies, one after the other. -/
def frames (pieces : List (Bytes × Entry δ)) : Bytes :=
  (pieces.map fun p => frame p.1).flatten

@[simp] theorem frames_nil : frames ([] : List (Bytes × Entry δ)) = [] := by
  rfl

@[simp] theorem frames_cons
    (p : Bytes × Entry δ) (pieces : List (Bytes × Entry δ)) :
    frames (p :: pieces) = frame p.1 ++ frames pieces := by
  rfl

/-- The bodies are accepted, and the entries are those that are delivered for them. -/
def Accepted (J : EntryJson δ) (pieces : List (Bytes × Entry δ)) : Prop :=
  ∀ p ∈ pieces, BodyOf J p.1 p.2

/--
A loop that ends well has read whole frames with accepted bodies up to something that is
cut off, and has called the handler on their entries in order.
-/
theorem replayLoop_ok
    {J : EntryJson δ} {fn : σ → Entry δ → Except String σ}
    {bs : Bytes} {validEnd recordCount lastSeq last fin : Nat} {s s' : σ}
    (h : replayLoop J fn bs validEnd recordCount lastSeq s = .ok (s', last, fin)) :
    ∃ (pieces : List (Bytes × Entry δ)) (rest : Bytes),
      Accepted J pieces ∧ bs = frames pieces ++ rest ∧ CutOff rest ∧
      (pieces.map Prod.snd).foldlM fn s = .ok s' ∧
      last = lastSeqOf (pieces.map Prod.snd) lastSeq ∧
      fin = validEnd + (frames pieces).length := by
  induction hn : bs.length using Nat.strong_induction_on
    generalizing bs validEnd recordCount lastSeq s with
  | h n ih =>
      have hcases := readFrame_cases bs
      rw [replayLoop] at h
      split at h
      · next htail =>
          rw [htail] at hcases
          cases h
          exact ⟨[], bs, fun p hp => absurd hp List.not_mem_nil, rfl, hcases, rfl, rfl, rfl⟩
      · split_ifs at h
      · split_ifs at h
      · next body rest hread =>
          rw [hread] at hcases
          obtain ⟨rfl, hmin, hmax⟩ := hcases
          by_cases hcrc : bodyCRC body = (crc32c (typeAndPayload body)).toNat
          · rw [if_neg (not_not.mpr hcrc)] at h
            cases hdec : decodeEntry J body with
            | none =>
                simp [hdec] at h
            | some e =>
                have hbody : BodyOf J body e := ⟨hmin, hmax, hcrc, hdec⟩
                simp only [hdec] at h
                cases hfn : fn s e with
                | error msg =>
                    simp [hfn] at h
                | ok s₁ =>
                    simp only [hfn] at h
                    have hshort : rest.length < n := by
                      rw [← hn, List.length_append, frame_length]
                      simp only [minBody, seqSize, crcSize, typeSize] at hmin
                      omega
                    obtain ⟨pieces, cut, hacc, rfl, hcut, hfold, rfl, rfl⟩ :=
                      ih rest.length hshort h rfl
                    refine ⟨(body, e) :: pieces, cut, ?_, ?_, hcut, ?_, ?_, ?_⟩
                    · intro p hp
                      rcases List.mem_cons.mp hp with rfl | hp
                      · exact hbody
                      · exact hacc p hp
                    · rw [frames_cons, List.append_assoc]
                    · rw [List.map_cons, List.foldlM_cons, hfn]
                      exact hfold
                    · rw [List.map_cons, lastSeqOf_cons, hbody.seq_eq]
                    · rw [frames_cons, List.length_append, frame_length]
                      dsimp only
                      omega
          · rw [if_pos hcrc] at h
            split_ifs at h with hend
            cases h
            subst hend
            refine ⟨[], frame body ++ [], fun p hp => absurd hp List.not_mem_nil, rfl, ?_,
              rfl, rfl, rfl⟩
            rw [List.append_nil]
            exact CutOff.badChecksum body hmin hmax hcrc

/-- The loop goes through whole frames, if the handler takes their entries. -/
theorem replayLoop_frames
    {J : EntryJson δ} {pieces : List (Bytes × Entry δ)}
    (h : Accepted J pieces)
    {fn : σ → Entry δ → Except String σ} {s s' : σ}
    (hfn : (pieces.map Prod.snd).foldlM fn s = .ok s')
    (rest : Bytes) (validEnd recordCount lastSeq : Nat) :
    replayLoop J fn (frames pieces ++ rest) validEnd recordCount lastSeq s =
      replayLoop J fn rest (validEnd + (frames pieces).length)
        (recordCount + pieces.length) (lastSeqOf (pieces.map Prod.snd) lastSeq) s' := by
  induction pieces generalizing s validEnd recordCount lastSeq with
  | nil =>
      cases hfn
      rfl
  | cons p pieces ih =>
      rw [List.map_cons, List.foldlM_cons] at hfn
      cases hp : fn s p.2 with
      | error msg =>
          rw [hp] at hfn
          cases hfn
      | ok s₁ =>
          rw [hp] at hfn
          have hrest : Accepted J pieces := fun q hq => h q (List.mem_cons_of_mem _ hq)
          rw [frames_cons, List.append_assoc, replayLoop_frame (h p List.mem_cons_self)]
          simp only [hp]
          rw [ih hrest hfn, List.map_cons, lastSeqOf_cons]
          simp only [List.length_append, List.length_cons, frame_length, Nat.add_assoc,
            Nat.add_comm 1 pieces.length]

/-- The handler, with the list of the entries that it has taken. -/
def traced
    (fn : σ → Entry δ → Except String σ)
    (s : σ × List (Entry δ)) (e : Entry δ) :
    Except String (σ × List (Entry δ)) :=
  (fn s.1 e).map fun s' => (s', s.2 ++ [e])

theorem foldlM_traced
    (fn : σ → Entry δ → Except String σ)
    (es : List (Entry δ)) (s : σ) (acc : List (Entry δ)) :
    es.foldlM (traced fn) (s, acc) = (es.foldlM fn s).map fun s' => (s', acc ++ es) := by
  induction es generalizing s acc with
  | nil =>
      rw [List.append_nil]
      rfl
  | cons e es ih =>
      rw [List.foldlM_cons, List.foldlM_cons, traced]
      cases hfn : fn s e with
      | error msg =>
          rfl
      | ok s₁ =>
          show es.foldlM (traced fn) (s₁, acc ++ [e]) = _
          rw [ih, List.append_assoc]
          rfl

/-- The list does not change what the loop does. -/
theorem replayLoop_traced
    (J : EntryJson δ) (fn : σ → Entry δ → Except String σ)
    (bs : Bytes) (validEnd recordCount lastSeq : Nat) (s : σ) (acc : List (Entry δ)) :
    replayLoop J fn bs validEnd recordCount lastSeq s =
      (replayLoop J (traced fn) bs validEnd recordCount lastSeq (s, acc)).map
        fun r => (r.1.1, r.2) := by
  induction hn : bs.length using Nat.strong_induction_on
    generalizing bs validEnd recordCount lastSeq s acc with
  | h n ih =>
      rw [replayLoop.eq_def J fn, replayLoop.eq_def J (traced fn)]
      split
      · rfl
      · split_ifs <;> rfl
      · split_ifs <;> rfl
      · next body rest hread =>
          split_ifs
          · rfl
          · rfl
          · cases hdec : decodeEntry J body with
            | none =>
                rfl
            | some e =>
                dsimp only
                rw [traced]
                cases hfn : fn s e with
                | error msg =>
                    rfl
                | ok s₁ =>
                    have hlt : rest.length < n := by
                      have := readFrame_body_length hread
                      simp only [headerSize, magicSize, lenSize] at this
                      omega
                    exact ih rest.length hlt rest _ _ _ s₁ (acc ++ [e]) rfl

/-- The entries that a `Replay` which succeeds has delivered. -/
def delivered
    (J : EntryJson δ) (fn : σ → Entry δ → Except String σ)
    (s : σ) (file : Bytes) : List (Entry δ) :=
  match (replay J (traced fn) (s, []) file).1 with
  | .error _ => []
  | .ok ((_, es), _) => es

/-- A `Replay` that goes through whole frames to something that is cut off. -/
theorem delivered_eq
    {J : EntryJson δ} {fn : σ → Entry δ → Except String σ}
    {s s' : σ} {file : Bytes} {es : List (Entry δ)} {last fin : Nat}
    (h : replayLoop J (traced fn) file 0 0 0 (s, []) = .ok ((s', es), last, fin)) :
    delivered J fn s file = es ∧ replay J fn s file = (.ok (s', last), file.take fin) := by
  constructor
  · simp only [delivered, replay, h]
  · rw [replay, replayLoop_traced J fn file 0 0 0 s [], h]
    rfl

/--
`Replay` on arbitrary bytes.  An error leaves the file alone.  Otherwise the file is cut
to the frames whose entries were delivered, what is removed is a frame that the end of the
file cuts short or a last frame with a wrong checksum, and a second `Replay` delivers the
same entries, returns the same number and leaves the file alone.
-/
theorem replay_repairs
    (J : EntryJson δ) (fn : σ → Entry δ → Except String σ) (s : σ) (b : Bytes) :
    match replay J fn s b with
    | (.error _, file) => file = b
    | (.ok (s', lastSeq), file) =>
        ∃ (pieces : List (Bytes × Entry δ)) (rest : Bytes),
          Accepted J pieces ∧ b = file ++ rest ∧ CutOff rest ∧
          file = frames pieces ∧ delivered J fn s b = pieces.map Prod.snd ∧
          (delivered J fn s b).foldlM fn s = .ok s' ∧
          lastSeq = lastSeqOf (delivered J fn s b) 0 ∧
          delivered J fn s file = delivered J fn s b ∧
          replay J fn s file = (.ok (s', lastSeq), file) := by
  cases hloop : replayLoop J (traced fn) b 0 0 0 (s, []) with
  | error e =>
      have h : replay J fn s b = (.error e, b) := by
        rw [replay, replayLoop_traced J fn b 0 0 0 s [], hloop]
        rfl
      rw [h]
  | ok r =>
      obtain ⟨⟨s', es⟩, last, fin⟩ := r
      obtain ⟨pieces, rest, hacc, rfl, hcut, hfold, rfl, rfl⟩ := replayLoop_ok hloop
      obtain ⟨hdelivered, hreplay⟩ := delivered_eq hloop
      have hes : es = pieces.map Prod.snd ∧ (pieces.map Prod.snd).foldlM fn s = .ok s' := by
        rw [foldlM_traced] at hfold
        cases hfn : (pieces.map Prod.snd).foldlM fn s with
        | error msg =>
            rw [hfn] at hfold
            cases hfold
        | ok s₁ =>
            rw [hfn] at hfold
            cases hfold
            exact ⟨rfl, rfl⟩
      obtain ⟨rfl, hfn⟩ := hes
      have hagain :
          replayLoop J (traced fn) (frames pieces) 0 0 0 (s, []) =
            .ok ((s', pieces.map Prod.snd), lastSeqOf (pieces.map Prod.snd) 0,
              0 + (frames pieces).length) := by
        have hframes := replayLoop_frames hacc hfold [] 0 0 0
        rwa [List.append_nil, replayLoop_nil] at hframes
      obtain ⟨hdelivered', hreplay'⟩ := delivered_eq hagain
      rw [hreplay, Nat.zero_add, List.take_left]
      refine ⟨pieces, rest, hacc, rfl, hcut, rfl, hdelivered, ?_, ?_, ?_, ?_⟩
      · rw [hdelivered]
        exact hfn
      · rw [hdelivered]
      · rw [hdelivered, hdelivered']
      · rw [hreplay', Nat.zero_add, List.take_length]

/-- `Replay` on the first `k` bytes of whole records. -/
theorem replay_take
    {J : EntryJson δ} {es : List (Entry δ)} {recs : List Bytes}
    (h : List.Forall₂ (Recorded J) es recs)
    (k : Nat) :
    replay J collect [] (recs.flatten.take k) =
      (.ok (es.take (wholeWithin recs k), lastSeqOf (es.take (wholeWithin recs k)) 0),
        (recs.take (wholeWithin recs k)).flatten) := by
  rcases take_flatten recs k with ⟨hall, htake⟩ | ⟨rec, n, hget, hn, htake⟩
  · rw [htake, hall, List.take_length, ← h.length_eq, List.take_length]
    exact replay_records h (foldlM_collect es [])
  · obtain ⟨hlt, rfl⟩ := List.getElem?_eq_some_iff.mp hget
    have hrec := h.get (h.length_eq ▸ hlt) hlt
    rw [htake]
    exact replay_records_torn (List.forall₂_take _ h) hrec hn (foldlM_collect _ [])

/--
`Replay` on the first `k` bytes of what `encodeRecord` wrote for a list of entries: it
delivers the entries whose record ends within them, and cuts the file to their records.
-/
theorem replay_prefix
    {J : EntryJson δ} {es : List (Entry δ)} {recs : List Bytes}
    (h : List.Forall₂ (Recorded J) es recs)
    (k : Nat) :
    ∃ j ≤ recs.length,
      (∀ i ≤ recs.length, (i ≤ j ↔ (recs.take i).flatten.length ≤ k)) ∧
      replay J collect [] (recs.flatten.take k) =
        (.ok (es.take j, lastSeqOf (es.take j) 0), (recs.take j).flatten) :=
  ⟨wholeWithin recs k, wholeWithin_le recs k, fun _ => le_wholeWithin_iff, replay_take h k⟩

/-- The records of two entries. -/
def twoRecords : List Bytes :=
  [firstEntry, secondEntry].map fun e => (encodeRecord twoEntriesJson e).getD []

theorem twoRecords_recorded :
    List.Forall₂ (Recorded twoEntriesJson) [firstEntry, secondEntry] twoRecords :=
  .cons ⟨by decide +kernel, by decide +kernel, by decide⟩
    (.cons ⟨by decide +kernel, by decide +kernel, by decide⟩ .nil)

/-- The second record is cut behind its length field. -/
theorem replay_prefix_two :
    twoRecords.flatten.length = 116 ∧
    ∃ j ≤ twoRecords.length,
      (∀ i ≤ twoRecords.length, (i ≤ j ↔ (twoRecords.take i).flatten.length ≤ 64)) ∧
      replay twoEntriesJson collect [] (twoRecords.flatten.take 64) =
        (.ok ([firstEntry, secondEntry].take j,
            lastSeqOf ([firstEntry, secondEntry].take j) 0),
          (twoRecords.take j).flatten) :=
  ⟨by decide +kernel, replay_prefix twoRecords_recorded 64⟩

end Repair

end Wal
end TaskQueue
