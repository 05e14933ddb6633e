import Mathlib.Tactic
import TaskQueue.Config.Validate
import TaskQueue.Engine.Effects

/-!
# The delay before a retry

`NextDelay` of `internal/retry/retry.go`, in exact rational arithmetic: the
exponential backoff with its cap, the jitter, the fallback for a negative delay
and the truncation to nanoseconds.  `Validate` says nothing about `MaxDelay`, and
the delays are what they are meant to be exactly when that setting is positive
(or zero with a jitter of the full delay).
-/

namespace TaskQueue
namespace Retry

open Queue

/-- `randomFloat64`, from the eight random bytes. -/
def randomFloat64 (bits : UInt64) : ℚ :=
  (bits.toNat % 2 ^ 53 : Nat) / 2 ^ 53

/-- `NextDelay` before the truncation; `draw` is what `randomFloat64` returns. -/
def exactDelay (cfg : RetryConfig) (attempt : Int) (draw : ℚ) : ℚ :=
  let delay := (cfg.baseDelay : ℚ) * cfg.multiplier ^ attempt
  let delay := if (cfg.maxDelay : ℚ) < delay then (cfg.maxDelay : ℚ) else delay
  let jitter := delay * cfg.jitterRatio
  let delay := delay + (draw * 2 - 1) * jitter
  if delay < 0 then (cfg.baseDelay : ℚ) else delay

/-- The conversion of a number to a duration: the fraction is dropped. -/
def truncate (q : ℚ) : Duration :=
  if 0 ≤ q then ⌊q⌋ else ⌈q⌉

/-- `NextDelay`. -/
def nextDelay (cfg : RetryConfig) (attempt : Int) (bits : UInt64) : Duration :=
  truncate (exactDelay cfg attempt (randomFloat64 bits))

/-- The delay that is meant for an attempt: the backoff, capped. -/
def backoff (cfg : RetryConfig) (attempt : Nat) : ℚ :=
  min ((cfg.baseDelay : ℚ) * cfg.multiplier ^ attempt) cfg.maxDelay

/-- The factor that the jitter puts on a delay. -/
def jitterFactor (cfg : RetryConfig) (draw : ℚ) : ℚ :=
  1 + (draw * 2 - 1) * cfg.jitterRatio

theorem randomFloat64_range
    (bits : UInt64) :
    0 ≤ randomFloat64 bits ∧ randomFloat64 bits < 1 := by
  have hlt : bits.toNat % 2 ^ 53 < 2 ^ 53 := Nat.mod_lt _ (by decide)
  have hlt' : ((bits.toNat % 2 ^ 53 : Nat) : ℚ) < 2 ^ 53 := by exact_mod_cast hlt
  unfold randomFloat64
  constructor
  · positivity
  · rw [div_lt_one (by positivity)]
    exact hlt'

theorem exactDelay_eq
    (cfg : RetryConfig) (attempt : Nat) (draw : ℚ) :
    exactDelay cfg attempt draw =
      if backoff cfg attempt * jitterFactor cfg draw < 0 then (cfg.baseDelay : ℚ)
      else backoff cfg attempt * jitterFactor cfg draw := by
  have hcap : (if (cfg.maxDelay : ℚ) < (cfg.baseDelay : ℚ) * cfg.multiplier ^ (attempt : Int)
      then (cfg.maxDelay : ℚ) else (cfg.baseDelay : ℚ) * cfg.multiplier ^ (attempt : Int)) =
        backoff cfg attempt := by
    rw [zpow_natCast, backoff, min_comm, min_def_lt]
  have hfactor : backoff cfg attempt + (draw * 2 - 1) * (backoff cfg attempt * cfg.jitterRatio) =
      backoff cfg attempt * jitterFactor cfg draw := by
    unfold jitterFactor
    ring
  unfold exactDelay
  dsimp only
  rw [hcap, hfactor]

section Factor

variable {cfg : RetryConfig} {draw : ℚ}

/-- The factor is within the jitter ratio of one. -/
theorem jitterFactor_range
    (hjitter : 0 ≤ cfg.jitterRatio)
    (hdraw : 0 ≤ draw)
    (hdraw' : draw < 1) :
    1 - cfg.jitterRatio ≤ jitterFactor cfg draw ∧
      jitterFactor cfg draw ≤ 1 + cfg.jitterRatio := by
  unfold jitterFactor
  constructor
  · nlinarith
  · nlinarith

theorem jitterFactor_nonneg
    (hjitter : 0 ≤ cfg.jitterRatio)
    (hjitter' : cfg.jitterRatio ≤ 1)
    (hdraw : 0 ≤ draw)
    (hdraw' : draw < 1) :
    0 ≤ jitterFactor cfg draw :=
  (sub_nonneg.mpr hjitter').trans (jitterFactor_range hjitter hdraw hdraw').1

end Factor

section Backoff

variable {cfg : RetryConfig} {attempt : Nat}

theorem backoff_pos
    (hbase : 0 < cfg.baseDelay)
    (hmultiplier : 1 ≤ cfg.multiplier)
    (hmax : 0 < cfg.maxDelay) :
    0 < backoff cfg attempt := by
  have hbase' : (0 : ℚ) < cfg.baseDelay := Int.cast_pos.mpr hbase
  have hmax' : (0 : ℚ) < cfg.maxDelay := Int.cast_pos.mpr hmax
  have hpow : (0 : ℚ) < cfg.multiplier ^ attempt := by positivity
  exact lt_min (mul_pos hbase' hpow) hmax'

/-- A cap that is not positive is the delay itself. -/
theorem backoff_of_nonpos
    (hbase : 0 < cfg.baseDelay)
    (hmultiplier : 1 ≤ cfg.multiplier)
    (hmax : cfg.maxDelay ≤ 0) :
    backoff cfg attempt = cfg.maxDelay := by
  have hbase' : (0 : ℚ) < cfg.baseDelay := Int.cast_pos.mpr hbase
  have hmax' : (cfg.maxDelay : ℚ) ≤ 0 := Int.cast_nonpos.mpr hmax
  have hpow : (0 : ℚ) < cfg.multiplier ^ attempt := by positivity
  exact min_eq_right (hmax'.trans (mul_pos hbase' hpow).le)

theorem backoff_mono
    (hbase : 0 < cfg.baseDelay)
    (hmultiplier : 1 ≤ cfg.multiplier)
    {attempt' : Nat}
    (hle : attempt ≤ attempt') :
    backoff cfg attempt ≤ backoff cfg attempt' := by
  have hbase' : (0 : ℚ) ≤ cfg.baseDelay := Int.cast_nonneg hbase.le
  have hpow : cfg.multiplier ^ attempt ≤ cfg.multiplier ^ attempt' :=
    pow_le_pow_right₀ hmultiplier hle
  exact min_le_min_right _ (mul_le_mul_of_nonneg_left hpow hbase')

end Backoff

/-- The delays of a retry policy are what they are meant to be. -/
structure Sane (cfg : RetryConfig) : Prop where
  range : ∀ (attempt : Nat) (draw : ℚ), 0 ≤ draw → draw < 1 →
    (1 - cfg.jitterRatio) * backoff cfg attempt ≤ exactDelay cfg attempt draw ∧
      exactDelay cfg attempt draw ≤ (1 + cfg.jitterRatio) * backoff cfg attempt
  positive : cfg.jitterRatio < 1 →
    ∀ (attempt : Nat) (draw : ℚ), 0 ≤ draw → draw < 1 → 0 < exactDelay cfg attempt draw
  monotone : ∀ (draw : ℚ), 0 ≤ draw → draw < 1 →
    ∀ attempt attempt' : Nat, attempt ≤ attempt' →
      exactDelay cfg attempt draw ≤ exactDelay cfg attempt' draw

section Sane

variable {cfg : RetryConfig}

/-- Where the backoff is not negative, the delay is the backoff with the jitter. -/
theorem exactDelay_of_nonneg
    {attempt : Nat} {draw : ℚ}
    (hbackoff : 0 ≤ backoff cfg attempt)
    (hjitter : 0 ≤ cfg.jitterRatio)
    (hjitter' : cfg.jitterRatio ≤ 1)
    (hdraw : 0 ≤ draw)
    (hdraw' : draw < 1) :
    exactDelay cfg attempt draw = backoff cfg attempt * jitterFactor cfg draw := by
  have hfactor := jitterFactor_nonneg hjitter hjitter' hdraw hdraw'
  rw [exactDelay_eq, if_neg (not_lt.mpr (mul_nonneg hbackoff hfactor))]

/-- A policy in which no backoff is negative, and none is zero unless the jitter is full. -/
theorem sane_of_nonneg
    (hbase : 0 < cfg.baseDelay)
    (hmultiplier : 1 ≤ cfg.multiplier)
    (hjitter : 0 ≤ cfg.jitterRatio)
    (hjitter' : cfg.jitterRatio ≤ 1)
    (hnonneg : ∀ attempt, 0 ≤ backoff cfg attempt)
    (hpos : cfg.jitterRatio < 1 → ∀ attempt, 0 < backoff cfg attempt) :
    Sane cfg := by
  constructor
  · intro attempt draw hdraw hdraw'
    obtain ⟨hlow, hhigh⟩ := jitterFactor_range hjitter hdraw hdraw'
    rw [exactDelay_of_nonneg (hnonneg attempt) hjitter hjitter' hdraw hdraw',
      mul_comm (1 - cfg.jitterRatio), mul_comm (1 + cfg.jitterRatio)]
    exact ⟨mul_le_mul_of_nonneg_left hlow (hnonneg attempt),
      mul_le_mul_of_nonneg_left hhigh (hnonneg attempt)⟩
  · intro hlt attempt draw hdraw hdraw'
    have hfactor : 0 < jitterFactor cfg draw :=
      (sub_pos.mpr hlt).trans_le (jitterFactor_range hjitter hdraw hdraw').1
    rw [exactDelay_of_nonneg (hnonneg attempt) hjitter hjitter' hdraw hdraw']
    exact mul_pos (hpos hlt attempt) hfactor
  · intro draw hdraw hdraw' attempt attempt' hle
    have hfactor := jitterFactor_nonneg hjitter hjitter' hdraw hdraw'
    rw [exactDelay_of_nonneg (hnonneg attempt) hjitter hjitter' hdraw hdraw',
      exactDelay_of_nonneg (hnonneg attempt') hjitter hjitter' hdraw hdraw']
    exact mul_le_mul_of_nonneg_right (backoff_mono hbase hmultiplier hle) hfactor

/-- A policy with a positive cap. -/
theorem sane_of_maxDelay_pos
    (hbase : 0 < cfg.baseDelay)
    (hmultiplier : 1 ≤ cfg.multiplier)
    (hjitter : 0 ≤ cfg.jitterRatio)
    (hjitter' : cfg.jitterRatio ≤ 1)
    (hmax : 0 < cfg.maxDelay) :
    Sane cfg := by
  have hbackoff : ∀ attempt, 0 < backoff cfg attempt :=
    fun _ => backoff_pos hbase hmultiplier hmax
  exact sane_of_nonneg hbase hmultiplier hjitter hjitter'
    (fun attempt => (hbackoff attempt).le) (fun _ => hbackoff)

/-- With a negative cap the interval of the delays is empty, or on the wrong side of zero. -/
theorem nonneg_of_sane
    (hbase : 0 < cfg.baseDelay)
    (hmultiplier : 1 ≤ cfg.multiplier)
    (hjitter : 0 ≤ cfg.jitterRatio)
    (h : Sane cfg) :
    0 ≤ cfg.maxDelay := by
  by_contra hneg
  have hmax : cfg.maxDelay < 0 := not_le.mp hneg
  have hmax' : (cfg.maxDelay : ℚ) < 0 := Int.cast_lt_zero.mpr hmax
  have hbase' : (0 : ℚ) < cfg.baseDelay := Int.cast_pos.mpr hbase
  -- the draw in the middle: no jitter, so that the delay is negative and falls back
  have hfactor : jitterFactor cfg (1 / 2) = 1 := by
    unfold jitterFactor
    norm_num
  have hdelay : exactDelay cfg (0 : Nat) (1 / 2) = cfg.baseDelay := by
    rw [exactDelay_eq, backoff_of_nonpos hbase hmultiplier hmax.le, hfactor, mul_one,
      if_pos hmax']
  obtain ⟨-, hhigh⟩ := h.range 0 (1 / 2) (by norm_num) (by norm_num)
  rw [hdelay, backoff_of_nonpos hbase hmultiplier hmax.le] at hhigh
  nlinarith

/-- With the cap zero every delay is zero. -/
theorem jitter_of_sane_of_zero
    (hbase : 0 < cfg.baseDelay)
    (hmultiplier : 1 ≤ cfg.multiplier)
    (h : Sane cfg)
    (hmax : cfg.maxDelay = 0) :
    1 ≤ cfg.jitterRatio := by
  by_contra hlt
  have hdelay : exactDelay cfg (0 : Nat) 0 = 0 := by
    rw [exactDelay_eq, backoff_of_nonpos hbase hmultiplier hmax.le, hmax, Int.cast_zero, zero_mul,
      if_neg (lt_irrefl 0)]
  have hpos := h.positive (not_le.mp hlt) 0 0 le_rfl zero_lt_one
  rw [hdelay] at hpos
  exact lt_irrefl 0 hpos

end Sane

/--
For every configuration that `Validate` accepts, with a jitter ratio from zero to
one: the delays are in their interval, positive unless the jitter is full, and do
not decrease with the attempts, if and only if `MaxDelay` is positive, or zero with
a full jitter.
-/
theorem nextDelay_sane_iff
    (c : Config)
    (hvalid : c.validate = [])
    (hjitter : 0 ≤ c.retry.jitterRatio)
    (hjitter' : c.retry.jitterRatio ≤ 1) :
    Sane c.retry ↔
      0 < c.retry.maxDelay ∨ (c.retry.maxDelay = 0 ∧ c.retry.jitterRatio = 1) := by
  have haccepted := (Config.validate_eq_nil_iff c).mp hvalid
  have hbase := haccepted.baseDelay
  have hmultiplier := haccepted.multiplier
  constructor
  · intro h
    rcases (nonneg_of_sane hbase hmultiplier hjitter h).lt_or_eq with hpos | hzero
    · exact Or.inl hpos
    · have hfull := jitter_of_sane_of_zero hbase hmultiplier h hzero.symm
      exact Or.inr ⟨hzero.symm, le_antisymm hjitter' hfull⟩
  · rintro (hpos | ⟨hzero, hfull⟩)
    · exact sane_of_maxDelay_pos hbase hmultiplier hjitter hjitter' hpos
    · refine sane_of_nonneg hbase hmultiplier hjitter hjitter' ?_ ?_
      · intro attempt
        rw [backoff_of_nonpos hbase hmultiplier hzero.le, hzero, Int.cast_zero]
      · intro hlt
        exact absurd hfull hlt.ne

/-- The default policy. -/
theorem nextDelay_sane_iff_default : Sane Config.default.retry :=
  (nextDelay_sane_iff Config.default ((Config.validate_eq_nil_iff _).mpr Config.default_accepted)
    (by decide +kernel) (by decide +kernel)).mpr (Or.inl (by decide))

/-- The default settings with another `MaxDelay`. -/
def cappedAt (maxDelay : Duration) : Config :=
  { Config.default with retry := { Config.default.retry with maxDelay := maxDelay } }

/--
Both without a cap (`MaxDelay` is zero) and with a negative one the configuration is
accepted.  The first gives no delay at all, the second the base delay, above its
interval.
-/
theorem nextDelay_uncapped :
    ((cappedAt 0).validate = [] ∧ exactDelay (cappedAt 0).retry 0 (1 / 2) = 0) ∧
    ((cappedAt (-1)).validate = [] ∧
      exactDelay (cappedAt (-1)).retry 0 (1 / 2) = 1000000000 ∧
      (1 + (cappedAt (-1)).retry.jitterRatio) * backoff (cappedAt (-1)).retry 0 = -13 / 10) := by
  decide +kernel

/-- The retry policy of a server, which no environment variable changes. -/
theorem sane_load
    (parseFloat : String → Option ℚ) (env : String → String) :
    Sane (Config.load parseFloat env).retry := by
  have hload : (Config.load parseFloat env).retry = Config.default.retry := rfl
  rw [hload]
  exact sane_of_maxDelay_pos Config.default_accepted.baseDelay
    Config.default_accepted.multiplier (by decide +kernel) (by decide +kernel) (by decide)

/-- The duration that `NextDelay` returns is in the interval, to the nanosecond. -/
theorem nextDelay_range
    {cfg : RetryConfig}
    (h : Sane cfg)
    (attempt : Nat) (bits : UInt64)
    (hlow : 0 ≤ (1 - cfg.jitterRatio) * backoff cfg attempt) :
    ⌊(1 - cfg.jitterRatio) * backoff cfg attempt⌋ ≤ nextDelay cfg attempt bits ∧
      (nextDelay cfg attempt bits : ℚ) ≤ (1 + cfg.jitterRatio) * backoff cfg attempt := by
  obtain ⟨hdraw, hdraw'⟩ := randomFloat64_range bits
  obtain ⟨hfrom, hto⟩ := h.range attempt (randomFloat64 bits) hdraw hdraw'
  rw [nextDelay, truncate, if_pos (hlow.trans hfrom)]
  constructor
  · exact Int.floor_le_floor hfrom
  · exact (Int.floor_le _).trans hto

/--
A failure that is retried: the task waits for the delay of its attempt.  `NextDelay` is
called with the count before the failure.
-/
theorem handleFailure_backoff
    {e : Engine} {d : Engine.Disk} {id : TaskID} {err : Engine.HandlerError} {now : Time}
    {io : Wal.LogEnv} {t : Task} {cfg : RetryConfig} {bits : UInt64} {attempt : Nat}
    (hget : e.tasks.get id = some t)
    (hretry : Engine.finalFailure t err = false)
    (hattempt : t.retryCount = attempt)
    (h : Sane cfg)
    (hlow : 0 ≤ (1 - cfg.jitterRatio) * backoff cfg attempt) :
    ∃ t',
      (e.handleFailure d id err now (nextDelay cfg t.retryCount bits) io).1.tasks.get id =
        some t' ∧
      t'.state = .scheduled ∧
      now + ⌊(1 - cfg.jitterRatio) * backoff cfg attempt⌋ ≤ t'.scheduledAt ∧
      (t'.scheduledAt : ℚ) ≤ now + (1 + cfg.jitterRatio) * backoff cfg attempt := by
  obtain ⟨hfrom, hto⟩ := nextDelay_range h attempt bits hlow
  rw [← hattempt] at hfrom hto
  refine ⟨Engine.retriedAt err (now + nextDelay cfg t.retryCount bits) t, ?_, rfl, ?_, ?_⟩
  · unfold Engine.handleFailure
    rw [hget]
    simp only [hretry, Bool.false_eq_true, if_false]
    rw [Engine.pushHeap_tasks, Engine.append_tasks, Engine.markRetry,
      Engine.get_updateTask_self, hget]
    rfl
  · exact Int.add_le_add_left hfrom now
  · show ((now + nextDelay cfg t.retryCount bits : Int) : ℚ) ≤ _
    rw [Int.cast_add]
    exact add_le_add_right hto _

end Retry
end TaskQueue
