import Mathlib.Tactic
import TaskQueue.Api.Server
import TaskQueue.Config.Validate

/-!
# The rate limiter

`TokenBucket` of `internal/api/api.go`, in exact rational arithmetic.  The bucket
keeps one number, which is capped whenever it is refilled.  A call is admitted
exactly when no window that ends with it is over its envelope, where a window
starts at the creation of the bucket or at a call: the number is the minimum, over
all these windows, of what the envelope leaves.

The readings of the clock are those of the monotonic clock, in nanoseconds.
Nothing here needs them to be ordered.
-/

namespace TaskQueue
namespace Api

open Queue
open Engine (Disk)

/-- `Duration.Seconds`. -/
def seconds (d : Duration) : ℚ :=
  d / 1000000000

/-- `TokenBucket`. -/
structure TokenBucket where
  tokens : ℚ
  maxTokens : ℚ
  refillRate : ℚ
  lastRefill : Time
deriving DecidableEq

/-- `NewTokenBucket`. -/
def newTokenBucket (maxTokens refillRate : ℚ) (now : Time) : TokenBucket where
  tokens := maxTokens
  maxTokens := maxTokens
  refillRate := refillRate
  lastRefill := now

/-- A call of `Allow`: the reading of the clock, and the answer. -/
structure Call where
  time : Time
  admitted : Bool
deriving DecidableEq

/-- The number of calls that were admitted. -/
def admittedIn (history : List Call) : Nat :=
  history.countP Call.admitted

/-- The number of calls that were admitted in a window of `length` seconds. -/
def admittedWithin (start : Time) (length : ℚ) (history : List Call) : Nat :=
  history.countP fun call =>
    call.admitted && (decide (start ≤ call.time) && decide (seconds (call.time - start) ≤ length))

theorem admittedIn_cons
    (call : Call) (history : List Call) :
    admittedIn (call :: history) = admittedIn history + call.admitted.toNat := by
  unfold admittedIn
  rw [List.countP_cons]
  cases call.admitted with
  | false => rfl
  | true => rfl

theorem seconds_sub_add
    (t s r : Time) :
    seconds (t - s) + seconds (s - r) = seconds (t - r) := by
  unfold seconds
  push_cast
  ring

namespace TokenBucket

/-- `Allow`. -/
def allow (tb : TokenBucket) (now : Time) : TokenBucket × Bool :=
  let elapsed := seconds (now - tb.lastRefill)
  let tokens := tb.tokens + elapsed * tb.refillRate
  let tokens := if tb.maxTokens < tokens then tb.maxTokens else tokens
  if 1 ≤ tokens then
    ({ tb with tokens := tokens - 1, lastRefill := now }, true)
  else
    ({ tb with tokens := tokens, lastRefill := now }, false)

/-- The calls of `Allow` at the given readings of the clock. -/
def calls (tb : TokenBucket) : List Time → List Call
  | [] => []
  | now :: rest => ⟨now, (tb.allow now).2⟩ :: calls (tb.allow now).1 rest

/-- The tokens that a call finds. -/
def refilled (tb : TokenBucket) (now : Time) : ℚ :=
  min (tb.tokens + tb.refillRate * seconds (now - tb.lastRefill)) tb.maxTokens

/-- What one call does: it takes a token from those it finds, if there is one. -/
theorem allow_eq
    (tb : TokenBucket) (now : Time) :
    tb.allow now =
      ({ tb with
          tokens := tb.refilled now - ((decide (1 ≤ tb.refilled now)).toNat : ℚ)
          lastRefill := now },
        decide (1 ≤ tb.refilled now)) := by
  have hfound : (if tb.maxTokens < tb.tokens + seconds (now - tb.lastRefill) * tb.refillRate then
      tb.maxTokens else tb.tokens + seconds (now - tb.lastRefill) * tb.refillRate) =
        tb.refilled now := by
    rw [refilled, mul_comm tb.refillRate, min_comm, min_def_lt]
  unfold allow
  dsimp only
  rw [hfound]
  split_ifs with hone
  · simp [hone]
  · simp [hone]

section Call

variable (tb : TokenBucket) (now : Time)

theorem allow_admits_iff :
    (tb.allow now).2 = true ↔ 1 ≤ tb.refilled now := by
  rw [allow_eq]
  exact decide_eq_true_iff

theorem allow_tokens :
    (tb.allow now).1.tokens = tb.refilled now - ((tb.allow now).2.toNat : ℚ) := by
  rw [allow_eq]

theorem allow_settings :
    (tb.allow now).1.maxTokens = tb.maxTokens ∧ (tb.allow now).1.refillRate = tb.refillRate ∧
      (tb.allow now).1.lastRefill = now := by
  rw [allow_eq]
  exact ⟨rfl, rfl, rfl⟩

end Call

theorem calls_times
    (tb : TokenBucket) (times : List Time) :
    (tb.calls times).map Call.time = times := by
  induction times generalizing tb with
  | nil =>
      rfl
  | cons now rest ih =>
      rw [calls, List.map_cons, ih]

/-- A property of the entries up to a position, for the first entry and for the others. -/
theorem forall_getElem?_cons
    {head : Call} {tail : List Call} {i : Nat} {P : Nat → Call → Prop} :
    (∀ c start, c ≤ i + 1 → (head :: tail)[c]? = some start → P c start) ↔
      P 0 head ∧ ∀ c start, c ≤ i → tail[c]? = some start → P (c + 1) start := by
  constructor
  · intro h
    exact ⟨h 0 head (Nat.zero_le _) rfl,
      fun c start hc hstart => h (c + 1) start (Nat.succ_le_succ hc) hstart⟩
  · rintro ⟨hhead, htail⟩ c start hc hstart
    cases c with
    | zero =>
        cases hstart
        exact hhead
    | succ c =>
        exact htail c start (Nat.le_of_succ_le_succ hc) hstart

/-- What the tokens after a call leave for a later one, `elapsed` seconds after it. -/
theorem le_tokens_allow_iff
    (tb : TokenBucket) (now t : Time) (x : ℚ) :
    x ≤ (tb.allow now).1.tokens + tb.refillRate * seconds (t - now) ↔
      x + ((tb.allow now).2.toNat : ℚ) ≤
          tb.tokens + tb.refillRate * seconds (t - tb.lastRefill) ∧
        x + ((tb.allow now).2.toNat : ℚ) ≤ tb.maxTokens + tb.refillRate * seconds (t - now) := by
  have htime := seconds_sub_add t now tb.lastRefill
  have hsplit : x ≤ (tb.allow now).1.tokens + tb.refillRate * seconds (t - now) ↔
      x + ((tb.allow now).2.toNat : ℚ) - tb.refillRate * seconds (t - now) ≤ tb.refilled now := by
    rw [allow_tokens]
    constructor
    · intro h
      linarith
    · intro h
      linarith
  rw [hsplit, refilled, le_min_iff, ← htime]
  constructor
  · rintro ⟨hcreated, hcall⟩
    exact ⟨by linarith, by linarith⟩
  · rintro ⟨hcreated, hcall⟩
    exact ⟨by linarith, by linarith⟩

/--
A call is admitted if and only if every window that ends with it has room for it: the
window from the last refill, with the tokens of that time, and the windows from each
call on, with a full bucket.
-/
theorem admitted_iff
    (tb : TokenBucket) (times : List Time) {i : Nat} {call : Call}
    (hcall : (tb.calls times)[i]? = some call) :
    call.admitted = true ↔
      (admittedIn ((tb.calls times).take i) : ℚ) + 1 ≤
          tb.tokens + tb.refillRate * seconds (call.time - tb.lastRefill) ∧
        ∀ c start, c ≤ i → (tb.calls times)[c]? = some start →
          (admittedIn (((tb.calls times).take i).drop c) : ℚ) + 1 ≤
            tb.maxTokens + tb.refillRate * seconds (call.time - start.time) := by
  induction times generalizing tb i with
  | nil =>
      simp [calls] at hcall
  | cons now rest ih =>
      rw [calls] at hcall ⊢
      cases i with
      | zero =>
          cases hcall
          rw [allow_admits_iff, refilled, le_min_iff]
          constructor
          · rintro ⟨hcreated, hfull⟩
            refine ⟨by simpa [admittedIn] using hcreated, ?_⟩
            intro c start hc hstart
            cases Nat.le_zero.mp hc
            cases hstart
            simpa [admittedIn, seconds] using hfull
          · rintro ⟨hcreated, hcalls⟩
            have hfull := hcalls 0 _ le_rfl rfl
            exact ⟨by simpa [admittedIn] using hcreated, by simpa [admittedIn, seconds] using hfull⟩
      | succ i =>
          -- the first call changes the bucket; the windows that start with or before it are
          -- those of the window from the last refill, after it
          obtain ⟨hmax, hrate, hlast⟩ := allow_settings tb now
          have hrest := ih (tb.allow now).1 hcall
          rw [hmax, hrate, hlast, le_tokens_allow_iff] at hrest
          rw [hrest, forall_getElem?_cons, List.take_succ_cons, List.drop_zero, admittedIn_cons]
          simp only [List.drop_succ_cons, Nat.cast_add, add_right_comm _ _ (1 : ℚ)]
          exact and_assoc

/-- No call before the first one in the window counts. -/
theorem admittedWithin_le_admittedIn_drop
    {start : Time} {history : List Call} {c : Nat}
    (length : ℚ)
    (hbefore : ∀ call ∈ history.take c, ¬start ≤ call.time) :
    admittedWithin start length history ≤ admittedIn (history.drop c) := by
  have hsplit : admittedWithin start length history =
      admittedWithin start length (history.take c) +
        admittedWithin start length (history.drop c) := by
    unfold admittedWithin
    rw [← List.countP_append, List.take_append_drop]
  have hnone : admittedWithin start length (history.take c) = 0 := by
    unfold admittedWithin
    rw [List.countP_eq_zero]
    intro call hcall
    simp [hbefore call hcall]
  have hsome : admittedWithin start length (history.drop c) ≤ admittedIn (history.drop c) := by
    refine List.countP_mono_left ?_
    intro call _ hcounted
    exact (Bool.and_eq_true_iff.mp hcounted).1
  omega

/-- The first call that is not before the window. -/
theorem exists_first_call
    {history : List Call} {start : Time} {n : Nat} {call : Call}
    (hcall : history[n]? = some call)
    (hstart : start ≤ call.time) :
    ∃ c first, c ≤ n ∧ history[c]? = some first ∧ start ≤ first.time ∧
      ∀ other ∈ history.take c, ¬start ≤ other.time := by
  have hexists : ∃ k, ∃ other : Call, history[k]? = some other ∧ start ≤ other.time :=
    ⟨n, call, hcall, hstart⟩
  obtain ⟨first, hfirst, hlate⟩ := Nat.find_spec hexists
  refine ⟨Nat.find hexists, first, Nat.find_min' hexists ⟨call, hcall, hstart⟩, hfirst, hlate, ?_⟩
  intro other hother hlate'
  obtain ⟨k, hk, hget⟩ := List.mem_take_iff_getElem.mp hother
  have hk' : k < Nat.find hexists := lt_of_lt_of_le hk (Nat.min_le_left _ _)
  exact Nat.find_min hexists hk' ⟨other, List.getElem?_eq_some_iff.mpr ⟨_, hget⟩, hlate'⟩

section Window

variable {tb : TokenBucket} {times : List Time} {start : Time} {length : ℚ}

/-- The admitted calls of a window up to an admitted call in it. -/
theorem admittedWithin_succ_le
    (hrate : 0 ≤ tb.refillRate)
    {n : Nat} {call : Call}
    (hcall : (tb.calls times)[n]? = some call)
    (hadmitted : call.admitted = true)
    (hstart : start ≤ call.time)
    (hlength : seconds (call.time - start) ≤ length) :
    (admittedWithin start length ((tb.calls times).take n) : ℚ) + 1 ≤
      tb.maxTokens + tb.refillRate * length := by
  obtain ⟨c, first, hc, hfirst, hlate, hbefore⟩ := exists_first_call hcall hstart
  have hroom := ((admitted_iff tb times hcall).mp hadmitted).2 c first hc hfirst
  have hcount : admittedWithin start length ((tb.calls times).take n) ≤
      admittedIn (((tb.calls times).take n).drop c) := by
    refine admittedWithin_le_admittedIn_drop length ?_
    rw [List.take_take, Nat.min_eq_left hc]
    exact hbefore
  have hcount' : (admittedWithin start length ((tb.calls times).take n) : ℚ) ≤
      admittedIn (((tb.calls times).take n).drop c) := Nat.cast_le.mpr hcount
  have hshort : seconds (call.time - first.time) ≤ length := by
    refine le_trans ?_ hlength
    unfold seconds
    gcongr
  have hsupply := mul_le_mul_of_nonneg_left hshort hrate
  linarith

/-- The admitted calls of a window. -/
theorem admittedWithin_take_le
    (hmax : 0 ≤ tb.maxTokens)
    (hrate : 0 ≤ tb.refillRate)
    (hlength : 0 ≤ length)
    (n : Nat) :
    (admittedWithin start length ((tb.calls times).take n) : ℚ) ≤
      tb.maxTokens + tb.refillRate * length := by
  induction n with
  | zero =>
      have hsupply := mul_nonneg hrate hlength
      simpa [admittedWithin] using add_nonneg hmax hsupply
  | succ n ih =>
      rw [List.take_add_one]
      cases hcall : (tb.calls times)[n]? with
      | none =>
          rw [Option.toList_none, List.append_nil]
          exact ih
      | some call =>
          have hone : admittedWithin start length ((tb.calls times).take n ++ [call]) =
              admittedWithin start length ((tb.calls times).take n) +
                admittedWithin start length [call] := List.countP_append
          rw [Option.toList_some, hone]
          by_cases hcounted : call.admitted = true ∧ start ≤ call.time ∧
              seconds (call.time - start) ≤ length
          · have hnext := admittedWithin_succ_le hrate hcall hcounted.1 hcounted.2.1 hcounted.2.2
            have hcall' : admittedWithin start length [call] = 1 := by
              simp [admittedWithin, hcounted]
            rw [hcall', Nat.cast_add, Nat.cast_one]
            exact hnext
          · have hcall' : admittedWithin start length [call] = 0 := by
              simpa [admittedWithin] using hcounted
            rw [hcall', add_zero]
            exact ih

/-- The whole history. -/
theorem admittedWithin_le
    (hmax : 0 ≤ tb.maxTokens)
    (hrate : 0 ≤ tb.refillRate)
    (hlength : 0 ≤ length) :
    (admittedWithin start length (tb.calls times) : ℚ) ≤
      tb.maxTokens + tb.refillRate * length := by
  rw [← List.take_length (l := tb.calls times)]
  exact admittedWithin_take_le hmax hrate hlength _

end Window

/--
The calls of a new bucket, at any readings of the clock.  One is admitted if and only if
each window that ends with it, from the creation or from this or an earlier call on, has
admitted so few before it that one more is within `maxTokens` plus what `refillRate` gives
for the length of the window.  So no window whatever admits more than that.
-/
theorem allow_envelope
    {maxTokens refillRate : ℚ}
    (hmax : 0 ≤ maxTokens)
    (hrate : 0 ≤ refillRate)
    (created : Time) (times : List Time) :
    ((newTokenBucket maxTokens refillRate created).calls times).map Call.time = times ∧
    (∀ i call, ((newTokenBucket maxTokens refillRate created).calls times)[i]? = some call →
      (call.admitted = true ↔
        (admittedIn
            (((newTokenBucket maxTokens refillRate created).calls times).take i) : ℚ) + 1 ≤
          maxTokens + refillRate * seconds (call.time - created) ∧
        ∀ c start, c ≤ i →
          ((newTokenBucket maxTokens refillRate created).calls times)[c]? = some start →
          (admittedIn ((((newTokenBucket maxTokens refillRate created).calls times).take
              i).drop c) : ℚ) + 1 ≤
            maxTokens + refillRate * seconds (call.time - start.time))) ∧
    ∀ start length, 0 ≤ length →
      (admittedWithin start length
          ((newTokenBucket maxTokens refillRate created).calls times) : ℚ) ≤
        maxTokens + refillRate * length := by
  refine ⟨calls_times _ times, ?_, ?_⟩
  · intro i call hcall
    exact admitted_iff (newTokenBucket maxTokens refillRate created) times hcall
  · intro start length hlength
    exact admittedWithin_le hmax hrate hlength

/-- One token, and one more every two seconds: the second of three calls is refused. -/
theorem allow_envelope_three :
    (newTokenBucket 1 (1 / 2) 0).calls [0, 1000000000, 2000000000] =
        [⟨0, true⟩, ⟨1000000000, false⟩, ⟨2000000000, true⟩] ∧
      (admittedWithin 0 2 ((newTokenBucket 1 (1 / 2) 0).calls [0, 1000000000, 2000000000]) : ℚ) ≤
        1 + 1 / 2 * 2 := by
  have henvelope := allow_envelope (by norm_num : (0 : ℚ) ≤ 1) (by norm_num : (0 : ℚ) ≤ 1 / 2) 0
    [0, 1000000000, 2000000000]
  exact ⟨by decide +kernel, henvelope.2.2 0 2 (by norm_num)⟩

end TokenBucket

/-- A `POST /tasks`: the reading of the clock in `Allow`, and what `submitTask` meets. -/
structure Arrival where
  time : Time
  engine : Engine
  disk : Disk
  body : Except String SubmitRequest
  generatedID : TaskID
  requestNow : Time
  now : Time
  io : Wal.LogEnv

/-- The outcome of a request, with the answer of the limiter. -/
def Arrival.outcome (a : Arrival) (allow : Bool) : Outcome :=
  (submitTask a.engine a.disk allow a.body a.generatedID a.requestNow a.now a.io).2.2

/-- The outcomes of the requests of a server; whatever else happens between two of them. -/
def outcomes (limiter : TokenBucket) : List Arrival → List (Time × Outcome)
  | [] => []
  | a :: rest =>
      (a.time, a.outcome (limiter.allow a.time).2) :: outcomes (limiter.allow a.time).1 rest

/-- The number of requests that were not turned away with 429 in a window. -/
def servedWithin (start : Time) (length : ℚ) (served : List (Time × Outcome)) : Nat :=
  served.countP fun r =>
    decide (r.2 ≠ writeError 429 "rate limit exceeded") &&
      (decide (start ≤ r.1) && decide (seconds (r.1 - start) ≤ length))

/-- A request that the limiter refuses is turned away. -/
theorem servedWithin_le_admittedWithin
    (limiter : TokenBucket) (arrivals : List Arrival) (start : Time) (length : ℚ) :
    servedWithin start length (outcomes limiter arrivals) ≤
      admittedWithin start length (limiter.calls (arrivals.map Arrival.time)) := by
  induction arrivals generalizing limiter with
  | nil =>
      exact Nat.le_refl 0
  | cons a rest ih =>
      have hrest := ih (limiter.allow a.time).1
      have hrefused : (limiter.allow a.time).2 = false →
          a.outcome (limiter.allow a.time).2 = writeError 429 "rate limit exceeded" := by
        intro hallow
        rw [hallow]
        rfl
      unfold servedWithin admittedWithin at hrest ⊢
      rw [outcomes, List.map_cons, TokenBucket.calls, List.countP_cons, List.countP_cons]
      cases hallow : (limiter.allow a.time).2 with
      | false =>
          rw [hallow] at hrefused
          simpa [hrefused rfl] using hrest
      | true =>
          refine Nat.add_le_add hrest ?_
          simp only [Bool.true_and, Bool.and_eq_true]
          split_ifs with hserved hwindow
          · exact Nat.le_refl 1
          · exact absurd hserved.2 hwindow
          · exact Nat.zero_le _
          · exact Nat.le_refl 0

/-- The server lets no more requests through in a window than its two settings say. -/
theorem served_le_envelope
    {c : HTTPConfig}
    (hburst : 0 ≤ c.rateLimitBurst)
    (hrate : 0 ≤ c.rateLimitPerSec)
    (created : Time) (arrivals : List Arrival) (start : Time) {length : ℚ}
    (hlength : 0 ≤ length) :
    (servedWithin start length
        (outcomes (newTokenBucket c.rateLimitBurst c.rateLimitPerSec created) arrivals) : ℚ) ≤
      c.rateLimitBurst + c.rateLimitPerSec * length := by
  refine le_trans (Nat.cast_le.mpr (servedWithin_le_admittedWithin _ arrivals start length)) ?_
  exact TokenBucket.admittedWithin_le hburst hrate hlength

/-- Whatever the environment, the server of the settings that `Load` gives has a limit. -/
theorem served_le_envelope_load
    (parseFloat : String → Option ℚ) (env : String → String)
    (created : Time) (arrivals : List Arrival) (start : Time) {length : ℚ}
    (hlength : 0 ≤ length) :
    let http := (Config.load parseFloat env).http
    (servedWithin start length
        (outcomes (newTokenBucket http.rateLimitBurst http.rateLimitPerSec created) arrivals) :
        ℚ) ≤
      http.rateLimitBurst + http.rateLimitPerSec * length := by
  obtain ⟨hburst, hrate⟩ := Config.load_rateLimit_pos parseFloat env
  exact served_le_envelope hburst.le hrate.le created arrivals start hlength

end Api
end TaskQueue
