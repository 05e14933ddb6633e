import Mathlib.Algebra.Order.Floor.Div
import Mathlib.Tactic
import TaskQueue.Engine.FailedSubmit
import TaskQueue.Engine.DeadLetters
import TaskQueue.Api.Server

/-!
# Pages of the dead-letter queue

`ListDLQ` adds its two arguments as machine integers and slices with the result,
and `handleDLQ` takes both from the query string as they are.  This file says for
every limit and offset whether the page is the one that was asked for or the
slice expression panics, and that a client who reads page after page from the
start gets the whole queue.
-/

namespace TaskQueue

open Queue
open Lib (window slice mem_of_mem_window window_append window_of_length_le window_whole
  window_min_length slice_of_bounds)

namespace Engine

/-- The offset is behind the list, or both numbers and their sum are in the range. -/
def PageFits (total : Nat) (limit offset : Int64) : Prop :=
  (total : Int) ≤ offset.toInt ∨
    (0 ≤ offset ∧ 0 ≤ limit ∧ offset.toInt + limit.toInt < 2 ^ 63)

instance (total : Nat) (limit offset : Int64) : Decidable (PageFits total limit offset) :=
  inferInstanceAs (Decidable (_ ∨ _))

theorem nonneg_iff_toInt
    {n : Int64} :
    0 ≤ n ↔ 0 ≤ n.toInt := by
  exact Int64.le_iff_toInt_le

theorem listDLQ_of_fits
    {e : Engine} {limit offset : Int64}
    (h : PageFits e.dlq.length limit offset) :
    e.listDLQ limit offset =
      some (window e.dlq (max offset.toInt 0) (offset.toInt + limit.toInt), e.dlq.length) := by
  unfold listDLQ
  dsimp only
  by_cases hbehind : (e.dlq.length : Int) ≤ offset.toInt
  · rw [if_pos hbehind, window_of_length_le (hbehind.trans (le_max_left _ _))]
  · rcases h with h | ⟨hoffset, hlimit, hsum⟩
    · exact absurd h hbehind
    · rw [nonneg_iff_toInt] at hoffset hlimit
      have hexact : (offset + limit).toInt = offset.toInt + limit.toInt := by
        rw [Int64.toInt_add]
        exact Int.bmod_eq_of_le (by omega) (by omega)
      have hhigh : (if (e.dlq.length : Int) < offset.toInt + limit.toInt then
            (e.dlq.length : Int) else offset.toInt + limit.toInt) =
          min (offset.toInt + limit.toInt) e.dlq.length := by
        split_ifs <;> omega
      rw [if_neg hbehind, hexact, hhigh,
        slice_of_bounds hoffset (by omega) (min_le_right _ _), Option.map_some,
        window_min_length, max_eq_left hoffset]

/-- Everything else is a panic of the slice expression. -/
theorem listDLQ_of_not_fits
    {e : Engine} {limit offset : Int64}
    (h : ¬PageFits e.dlq.length limit offset) :
    e.listDLQ limit offset = none := by
  have hlimit := limit.le_toInt
  have hlimit' := limit.toInt_lt
  have hoffset' := offset.toInt_lt
  rw [PageFits, nonneg_iff_toInt, nonneg_iff_toInt] at h
  unfold listDLQ
  dsimp only
  rw [if_neg (fun hbehind => h (Or.inl hbehind)), Int64.toInt_add, slice, if_neg, Option.map_none]
  rintro ⟨hoffset, hle, -⟩
  -- the sum is below the offset: it has wrapped, or the limit is negative
  have hwrapped : (offset.toInt + limit.toInt).bmod (2 ^ 64) < offset.toInt := by
    rw [Int.bmod_def]
    omega
  split_ifs at hle
  · omega
  · omega

/-- The first `n` pages of a client who reads from the start, put together. -/
def readPages (e : Engine) (size : Int64) : Nat → Option (List TaskID)
  | 0 => some []
  | n + 1 =>
      (readPages e size n).bind fun entries =>
        (e.listDLQ size (Int64.ofNat (size.toInt.toNat * n))).map fun page => entries ++ page.1

/-- A page that starts within a queue of at most `2 ^ 62` entries. -/
theorem listDLQ_page
    {e : Engine} {size : Int64} {n : Nat}
    (hlen : e.dlq.length ≤ 2 ^ 62)
    (hsize : 0 < size.toInt)
    (hstart : size.toInt.toNat * n < e.dlq.length) :
    e.listDLQ size (Int64.ofNat (size.toInt.toNat * n)) =
      some (window e.dlq (size.toInt.toNat * n : Nat) (size.toInt.toNat * (n + 1) : Nat),
        e.dlq.length) := by
  have hoffset : (Int64.ofNat (size.toInt.toNat * n)).toInt = (size.toInt.toNat * n : Nat) :=
    Int64.toInt_ofNat_of_lt (by omega)
  have hend : ((size.toInt.toNat * n : Nat) : Int) + size.toInt =
      (size.toInt.toNat * (n + 1) : Nat) := by
    rw [Nat.mul_add, Nat.mul_one]
    omega
  have hsum : ((size.toInt.toNat * n : Nat) : Int) + size.toInt < 2 ^ 63 := by
    rcases Nat.eq_zero_or_pos n with rfl | hn
    · have hmax := size.toInt_lt
      omega
    · -- a page after the first one is shorter than the queue
      have hshort := Nat.le_mul_of_pos_right size.toInt.toNat hn
      omega
  have hfits : PageFits e.dlq.length size (Int64.ofNat (size.toInt.toNat * n)) := by
    right
    rw [nonneg_iff_toInt, nonneg_iff_toInt, hoffset]
    exact ⟨Int.natCast_nonneg _, hsize.le, hsum⟩
  rw [listDLQ_of_fits hfits, hoffset, max_eq_left (Int.natCast_nonneg _), hend]

theorem readPages_eq_window
    {e : Engine} {size : Int64}
    (hlen : e.dlq.length ≤ 2 ^ 62)
    (hsize : 0 < size.toInt)
    {n : Nat}
    (hn : n ≤ e.dlq.length ⌈/⌉ size.toInt.toNat) :
    e.readPages size n = some (window e.dlq 0 (size.toInt.toNat * n : Nat)) := by
  have hpos : 0 < size.toInt.toNat := by omega
  induction n with
  | zero =>
      rw [readPages, Nat.mul_zero, Lib.window_eq_take_drop]
      rfl
  | succ n ih =>
      have hstart : size.toInt.toNat * n < e.dlq.length := by
        rw [← not_le, ← ceilDiv_le_iff_le_mul hpos]
        omega
      rw [readPages, ih (by omega), Option.bind_some, listDLQ_page hlen hsize hstart,
        Option.map_some, window_append e.dlq (Int.natCast_nonneg _) ?_]
      exact Int.ofNat_le.mpr (Nat.mul_le_mul_left _ (Nat.le_succ n))

/--
For every dead-letter queue and every limit and offset: `ListDLQ` returns the
entries at the positions from `max offset 0` up to `offset + limit`, with the true
total, if and only if the offset is behind the queue or neither number is
negative and their sum fits; otherwise it panics.  Pages of any positive size, read
from the start, are together the whole queue (of at most `2 ^ 62` entries).
-/
theorem listDLQ_page_iff
    (e : Engine) (limit offset : Int64) :
    (e.listDLQ limit offset =
        some (window e.dlq (max offset.toInt 0) (offset.toInt + limit.toInt), e.dlq.length) ↔
      PageFits e.dlq.length limit offset) ∧
    (e.listDLQ limit offset = none ↔ ¬PageFits e.dlq.length limit offset) ∧
    (0 < limit → e.dlq.length ≤ 2 ^ 62 →
      e.readPages limit (e.dlq.length ⌈/⌉ limit.toInt.toNat) = some e.dlq) := by
  refine ⟨?_, ?_, ?_⟩
  · constructor
    · intro hpage
      by_contra hfits
      rw [listDLQ_of_not_fits hfits] at hpage
      cases hpage
    · exact listDLQ_of_fits
  · constructor
    · intro hpanic hfits
      rw [listDLQ_of_fits hfits] at hpanic
      cases hpanic
    · exact listDLQ_of_not_fits
  · intro hpos hlen
    have hsize : (0 : Int) < limit.toInt := Int64.lt_iff_toInt_lt.mp hpos
    have hsize' : 0 < limit.toInt.toNat := by omega
    have hcover : e.dlq.length ≤
        limit.toInt.toNat * (e.dlq.length ⌈/⌉ limit.toInt.toNat) :=
      le_smul_ceilDiv hsize'
    rw [readPages_eq_window hlen hsize le_rfl, window_whole (by exact_mod_cast hcover)]

/-- A new engine with three entries on its list. -/
def threeDead : Engine :=
  (((Service.initial System.roomyConfig).engine.pushDLQ "a").pushDLQ "b").pushDLQ "c"

/-- Two pages of three entries. -/
theorem listDLQ_page_iff_two :
    threeDead.listDLQ 2 1 = some (["b", "c"], 3) ∧
      threeDead.readPages 2 2 = some ["a", "b", "c"] := by
  have hpage := (listDLQ_page_iff threeDead 2 1).1.mpr (by decide)
  have hpages := (listDLQ_page_iff threeDead 2 0).2.2 (by decide) (by decide)
  exact ⟨hpage, hpages⟩

end Engine

namespace Api

open Engine

/-- The decimal text of an integer is read back. -/
theorem queryInt_decimal
    (n defaultVal : Int64) :
    queryInt (String.ofList (Lib.decimal n.toInt)) defaultVal = n := by
  have hatoi := Lib.atoi_decimal n
  have hne : String.ofList (Lib.decimal n.toInt) ≠ "" := by
    intro hempty
    rw [hempty] at hatoi
    cases hatoi
  rw [queryInt, if_neg hne, hatoi, Option.getD_some]

/-- Every 64-bit integer can come from a query string. -/
theorem queryInt_surjective
    (n defaultVal : Int64) :
    ∃ value, queryInt value defaultVal = n :=
  ⟨_, queryInt_decimal n defaultVal⟩

/-- The requests that make the handler panic. -/
theorem handleDLQ_panics_iff
    (e : Engine) (method : Method) (query : String → String) :
    handleDLQ e method query = .panics ↔
      method = .get ∧
        ¬PageFits e.dlq.length (queryInt (query "limit") 50) (queryInt (query "offset") 0) := by
  unfold handleDLQ
  cases method with
  | get =>
      dsimp only
      by_cases hfits : PageFits e.dlq.length (queryInt (query "limit") 50)
          (queryInt (query "offset") 0)
      · rw [listDLQ_of_fits hfits]
        simp [hfits]
      · rw [listDLQ_of_not_fits hfits]
        simp [hfits]
  | post =>
      simp [writeError]
  | delete =>
      simp [writeError]
  | other =>
      simp [writeError]

/-- The response to a request for a page: one entry for each dead task of the page. -/
theorem handleDLQ_lists
    {e : Engine} {query : String → String}
    (hexact : e.DlqExact)
    (hfits : PageFits e.dlq.length (queryInt (query "limit") 50)
      (queryInt (query "offset") 0)) :
    ∃ page tasks,
      e.listDLQ (queryInt (query "limit") 50) (queryInt (query "offset") 0) =
        some (page, e.dlq.length) ∧
      handleDLQ e .get query = .respond ⟨200, .deadLetters tasks e.dlq.length⟩ ∧
      tasks.length = page.length ∧
      ∀ entry ∈ tasks, entry.state = "dead" := by
  obtain ⟨page, hpage, hsub⟩ : ∃ page,
      e.listDLQ (queryInt (query "limit") 50) (queryInt (query "offset") 0) =
        some (page, e.dlq.length) ∧ ∀ id ∈ page, id ∈ e.dlq :=
    ⟨_, listDLQ_of_fits hfits, fun _ hid => mem_of_mem_window hid⟩
  have hdead : ∀ id ∈ page, ∃ t, e.tasks.get id = some t ∧ t.state = .dead := by
    intro id hid
    exact Option.map_eq_some_iff.mp ((hexact.2 id).mp (hsub id hid))
  refine ⟨page, page.filterMap fun id => (e.tasks.get id).map deadLetterResponse, hpage,
    ?_, ?_, ?_⟩
  · rw [handleDLQ]
    dsimp only
    rw [hpage]
  · rw [List.filterMap_length_eq_length]
    intro id hid
    obtain ⟨t, hget, -⟩ := hdead id hid
    rw [hget]
    rfl
  · intro entry hentry
    obtain ⟨id, hid, hentry⟩ := List.mem_filterMap.mp hentry
    obtain ⟨t, hget, hstate⟩ := hdead id hid
    rw [hget, Option.map_some, Option.some.injEq] at hentry
    rw [← hentry, deadLetterResponse, hstate]
    rfl

/--
`GET /dlq?offset=-1` on a new engine, and a page of the largest size from the
second of three entries on.
-/
theorem handleDLQ_panics_on_query :
    handleDLQ (Service.initial System.roomyConfig).engine .get
        (fun key => if key = "offset" then "-1" else "") = .panics ∧
      handleDLQ threeDead .get
        (fun key => if key = "offset" then "1" else "9223372036854775807") = .panics := by
  decide +kernel

end Api
end TaskQueue
