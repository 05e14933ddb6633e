import Mathlib.Tactic
import TaskQueue.Lib.Quantile
import TaskQueue.Metrics.Collector

/-!
# Latency percentiles

`percentiles` and `GetSnapshot` of `internal/metrics/metrics.go`, over the samples
that a sequence of recording calls leaves.  A series keeps its last 5000 to 10000
samples (all of them while there are fewer), and the two percentiles that are
reported for it are quantiles of exactly these samples.
-/

namespace TaskQueue

open Queue
open Lib (IsQuantile)

namespace Metrics

/-- `copy(dst, src)`: the contents of `dst` afterwards. -/
def copySlice (dst src : List Duration) : List Duration :=
  src.take dst.length ++ dst.drop src.length

/--
`percentiles`: the samples as the call leaves them, with p50 and p99; `none` is the
panic of an index out of range.
-/
def percentiles (samples : List Duration) : List Duration × Option (Duration × Duration) :=
  let n := samples.length
  if n = 0 then
    (samples, some (0, 0))
  else
    -- the copy is sorted, not the samples
    let sorted := (copySlice (List.replicate n 0) samples).insertionSort (· ≤ ·)
    let p99Idx := if n ≤ n * 99 / 100 then n - 1 else n * 99 / 100
    (samples,
      (sorted[n * 50 / 100]?).bind fun p50 => (sorted[p99Idx]?).map fun p99 => (p50, p99))

/-- `Snapshot`. -/
structure Snapshot where
  enqueueTotal : Int
  dequeueTotal : Int
  completeTotal : Int
  failTotal : Int
  retryTotal : Int
  deadTotal : Int
  queueDepth : Int
  enqueueP50Ns : Int
  enqueueP99Ns : Int
  executeP50Ns : Int
  executeP99Ns : Int

/-- `GetSnapshot`: the collector as the call leaves it, and the snapshot. -/
def getSnapshot (m : Metrics) : Metrics × Option Snapshot :=
  let e := percentiles m.enqueueSamples
  let x := percentiles m.executeSamples
  ({ m with enqueueSamples := e.1, executeSamples := x.1 },
    e.2.bind fun ep => x.2.map fun xp =>
      { enqueueTotal := m.enqueueTotal
        dequeueTotal := m.dequeueTotal
        completeTotal := m.completeTotal
        failTotal := m.failTotal
        retryTotal := m.retryTotal
        deadTotal := m.deadTotal
        queueDepth := m.queueDepth
        enqueueP50Ns := ep.1
        enqueueP99Ns := ep.2
        executeP50Ns := xp.1
        executeP99Ns := xp.2 })

/-- The recording calls. -/
inductive Recording
  | enqueue (latency : Duration)
  | dequeue
  | complete (execTime : Duration)
  | fail
  | retry
  | dead
deriving DecidableEq, Repr

/-- A recording call. -/
def record (m : Metrics) : Recording → Metrics
  | .enqueue latency => m.recordEnqueue latency
  | .dequeue => m.recordDequeue
  | .complete execTime => m.recordComplete execTime
  | .fail => m.recordFail
  | .retry => m.recordRetry
  | .dead => m.recordDead

/-- The two series of samples. -/
inductive Series
  | enqueue
  | execute
deriving DecidableEq, Repr

/-- The samples of a series. -/
def samplesOf (m : Metrics) : Series → List Duration
  | .enqueue => m.enqueueSamples
  | .execute => m.executeSamples

/-- The sample that a call records in a series. -/
def Series.sample : Series → Recording → Option Duration
  | .enqueue, .enqueue latency => some latency
  | .execute, .complete execTime => some execTime
  | _, _ => none

/-- All samples that the calls record in a series. -/
def Series.recorded (series : Series) (calls : List Recording) : List Duration :=
  calls.filterMap series.sample

/-- The samples are the last ones of those recorded, and neither too few nor too many. -/
structure Recent (recorded samples : List Duration) : Prop where
  suffix : samples <:+ recorded
  enough : min recorded.length 5000 ≤ samples.length
  bounded : samples.length ≤ 10000

/-- One more sample. -/
theorem Recent.appendSample
    {recorded samples : List Duration}
    (h : Recent recorded samples)
    (latency : Duration) :
    Recent (recorded ++ [latency]) (appendSample samples latency) := by
  have hsuffix : samples ++ [latency] <:+ recorded ++ [latency] := by
    obtain ⟨front, hfront⟩ := h.suffix
    exact ⟨front, by rw [← List.append_assoc, hfront]⟩
  have henough := h.enough
  have hbounded := h.bounded
  have hlen : (samples ++ [latency]).length = samples.length + 1 := List.length_append
  have hlen' : (recorded ++ [latency]).length = recorded.length + 1 := List.length_append
  unfold Metrics.appendSample
  dsimp only
  split_ifs with hfull
  · -- the 10001st sample: the last 5000 stay
    constructor
    · exact (List.drop_suffix _ _).trans hsuffix
    · rw [List.length_drop]
      omega
    · rw [List.length_drop]
      omega
  · constructor
    · exact hsuffix
    · omega
    · omega

/-- One recording call. -/
theorem Recent.record
    {m : Metrics} {series : Series} {past : List Duration}
    (h : Recent past (m.samplesOf series))
    (call : Recording) :
    Recent (past ++ (series.sample call).toList) ((m.record call).samplesOf series) := by
  cases series with
  | enqueue =>
      cases call with
      | enqueue latency =>
          exact h.appendSample latency
      | _ =>
          rw [← List.append_nil past] at h
          exact h
  | execute =>
      cases call with
      | complete execTime =>
          exact h.appendSample execTime
      | _ =>
          rw [← List.append_nil past] at h
          exact h

/-- Any sequence of recording calls. -/
theorem Recent.run
    {m : Metrics} {series : Series} {past : List Duration}
    (h : Recent past (m.samplesOf series))
    (calls : List Recording) :
    Recent (past ++ series.recorded calls) ((calls.foldl Metrics.record m).samplesOf series) := by
  induction calls generalizing m past with
  | nil =>
      rw [← List.append_nil past] at h
      exact h
  | cons call rest ih =>
      have hrest := ih (h.record call)
      have hsplit : series.recorded (call :: rest) =
          (series.sample call).toList ++ series.recorded rest := by
        unfold Series.recorded
        rw [List.filterMap_cons]
        cases series.sample call with
        | none => rfl
        | some latency => rfl
      rw [hsplit, ← List.append_assoc]
      exact hrest

theorem recent_new
    (series : Series) :
    Recent [] (new.samplesOf series) := by
  cases series with
  | enqueue => exact ⟨List.suffix_rfl, Nat.zero_le _, Nat.zero_le _⟩
  | execute => exact ⟨List.suffix_rfl, Nat.zero_le _, Nat.zero_le _⟩

/-- A copy into a slice of the same length has the same contents. -/
theorem copySlice_replicate
    (samples : List Duration) :
    copySlice (List.replicate samples.length 0) samples = samples := by
  rw [copySlice, List.length_replicate, List.take_length, List.drop_replicate, Nat.sub_self]
  exact List.append_nil samples

/-- The two indexes are in range, so that both percentiles are entries of the sorted copy. -/
theorem percentiles_eq
    {samples : List Duration}
    (h : samples ≠ []) :
    ∃ p50 p99,
      (samples.insertionSort (· ≤ ·))[samples.length * 50 / 100]? = some p50 ∧
      (samples.insertionSort (· ≤ ·))[samples.length * 99 / 100]? = some p99 ∧
      percentiles samples = (samples, some (p50, p99)) := by
  have hpos : 0 < samples.length := List.length_pos_iff.mpr h
  have hlen : (samples.insertionSort (· ≤ ·)).length = samples.length :=
    List.length_insertionSort _ samples
  have h50 : samples.length * 50 / 100 < (samples.insertionSort (· ≤ ·)).length := by omega
  have h99 : samples.length * 99 / 100 < (samples.insertionSort (· ≤ ·)).length := by omega
  refine ⟨_, _, List.getElem?_eq_getElem h50, List.getElem?_eq_getElem h99, ?_⟩
  unfold percentiles
  dsimp only
  rw [if_neg hpos.ne', copySlice_replicate, if_neg (by omega), List.getElem?_eq_getElem h50,
    List.getElem?_eq_getElem h99]
  rfl

/-- The percentiles of samples that are not empty. -/
theorem percentiles_isQuantile
    {samples : List Duration}
    (h : samples ≠ []) :
    ∃ p50 p99, percentiles samples = (samples, some (p50, p99)) ∧
      IsQuantile (50 / 100) samples p50 ∧ IsQuantile (99 / 100) samples p99 ∧ p50 ≤ p99 := by
  obtain ⟨p50, p99, h50, h99, hresult⟩ := percentiles_eq h
  refine ⟨p50, p99, hresult, ?_, ?_, ?_⟩
  · exact_mod_cast Lib.isQuantile_of_insertionSort (by decide) h50
  · exact_mod_cast Lib.isQuantile_of_insertionSort (by decide) h99
  · exact Lib.le_of_sorted (List.pairwise_insertionSort _ samples) (by omega) h50 h99

/-- The order of the samples does not matter. -/
theorem percentiles_perm
    {samples samples' : List Duration}
    (h : samples'.Perm samples) :
    (percentiles samples').2 = (percentiles samples).2 := by
  unfold percentiles
  dsimp only
  rw [h.length_eq]
  split_ifs
  · rfl
  all_goals
    rw [← h.length_eq, copySlice_replicate, h.length_eq, copySlice_replicate,
      Lib.insertionSort_eq_of_perm h]

/--
After any recording calls of which one or more are in the series: its samples are
the last ones recorded, from 5000 (or all) to 10000 of them, and `percentiles`
returns two quantiles of them, in order.  It leaves the samples alone, and
returns the same for any other order of them.
-/
theorem percentiles_of_recent
    (series : Series) (calls : List Recording)
    (hne : series.recorded calls ≠ []) :
    Recent (series.recorded calls) ((calls.foldl record new).samplesOf series) ∧
    ∃ p50 p99,
      percentiles ((calls.foldl record new).samplesOf series) =
        ((calls.foldl record new).samplesOf series, some (p50, p99)) ∧
      IsQuantile (50 / 100) ((calls.foldl record new).samplesOf series) p50 ∧
      IsQuantile (99 / 100) ((calls.foldl record new).samplesOf series) p99 ∧
      p50 ≤ p99 ∧
      ∀ samples', samples'.Perm ((calls.foldl record new).samplesOf series) →
        (percentiles samples').2 = some (p50, p99) := by
  have hrecent := (recent_new series).run calls
  rw [List.nil_append] at hrecent
  have hsome : (calls.foldl record new).samplesOf series ≠ [] := by
    have hpos : 0 < (series.recorded calls).length := List.length_pos_iff.mpr hne
    have henough := hrecent.enough
    exact List.length_pos_iff.mp (by omega)
  obtain ⟨p50, p99, hresult, h50, h99, hle⟩ := percentiles_isQuantile hsome
  refine ⟨hrecent, p50, p99, hresult, h50, h99, hle, ?_⟩
  intro samples' hperm
  rw [percentiles_perm hperm, hresult]

/-- Three enqueues and one completion. -/
theorem percentiles_of_recent_three :
    percentiles [30, 10, 20] = ([30, 10, 20], some (20, 30)) ∧
      IsQuantile (50 / 100) [30, 10, 20] (20 : Duration) ∧
      IsQuantile (99 / 100) [30, 10, 20] (30 : Duration) := by
  obtain ⟨-, p50, p99, hresult, h50, h99, -, -⟩ := percentiles_of_recent .enqueue
    [.enqueue 30, .enqueue 10, .complete 7, .enqueue 20] (by decide)
  have hvalue : percentiles [30, 10, 20] = ([30, 10, 20], some (20, 30)) := by decide +kernel
  cases hvalue.symm.trans hresult
  exact ⟨hvalue, h50, h99⟩

/-- `GetSnapshot` returns a snapshot and leaves the collector as it was. -/
theorem getSnapshot_total
    (m : Metrics) :
    (getSnapshot m).1 = m ∧ (getSnapshot m).2.isSome = true := by
  have htotal : ∀ samples, (percentiles samples).1 = samples ∧
      (percentiles samples).2.isSome = true := by
    intro samples
    by_cases h : samples = []
    · subst h
      exact ⟨rfl, rfl⟩
    · obtain ⟨p50, p99, hresult, -⟩ := percentiles_isQuantile h
      rw [hresult]
      exact ⟨rfl, rfl⟩
  obtain ⟨he, he'⟩ := htotal m.enqueueSamples
  obtain ⟨hx, hx'⟩ := htotal m.executeSamples
  constructor
  · rw [getSnapshot, he, hx]
  · obtain ⟨ep, hep⟩ := Option.isSome_iff_exists.mp he'
    obtain ⟨xp, hxp⟩ := Option.isSome_iff_exists.mp hx'
    rw [getSnapshot, hep, hxp]
    rfl

end Metrics
end TaskQueue
