import Mathlib.Tactic
import TaskQueue.Engine.State

/-!
# The configuration of the server

`Config`, `Default`, `Load` and `Validate` of `internal/config/config.go`, with the
settings that are validated or that a modelled part of the server reads.  The
floating-point settings are rational numbers.  How `fmt` writes a string (`%q`) and a
floating-point number (`%f`), and how `strconv.ParseFloat` reads one, are parameters;
the infinite values that it also reads are left out.

`Validate` accepts exactly the settings of `Accepted`; for these `New` of
`internal/engine/engine.go` gives an engine, with the settings `engineConfig`.
-/

namespace TaskQueue

open Queue

/-- `QueueConfig`. -/
structure QueueConfig where
  capacity : Int
  overflowPolicy : String

/-- `WorkerConfig`. -/
structure WorkerConfig where
  count : Int
  defaultTimeout : Duration

/-- `RetryConfig`, which `New` copies field by field into a `retry.Config`. -/
structure RetryConfig where
  maxRetries : Int
  baseDelay : Duration
  maxDelay : Duration
  multiplier : ℚ
  jitterRatio : ℚ

/-- `WALConfig`. -/
structure WALConfig where
  dir : String
  syncPolicy : String

/-- `HTTPConfig`. -/
structure HTTPConfig where
  addr : String
  rateLimitBurst : ℚ
  rateLimitPerSec : ℚ

/-- `Config`. -/
structure Config where
  queue : QueueConfig
  worker : WorkerConfig
  retry : RetryConfig
  wal : WALConfig
  http : HTTPConfig

/-- What `Validate` objects to, with the value it reports. -/
inductive ConfigError
  | capacity (got : Int)
  | overflowPolicy (got : String)
  | count (got : Int)
  | maxRetries (got : Int)
  | baseDelay
  | multiplier (got : ℚ)
  | dir
  | syncPolicy (got : String)
  | addr
deriving DecidableEq

namespace ConfigError

/-- The path of the setting. -/
def path : ConfigError → String
  | .capacity _ => "queue.capacity"
  | .overflowPolicy _ => "queue.overflow_policy"
  | .count _ => "worker.count"
  | .maxRetries _ => "retry.max_retries"
  | .baseDelay => "retry.base_delay"
  | .multiplier _ => "retry.multiplier"
  | .dir => "wal.dir"
  | .syncPolicy _ => "wal.sync_policy"
  | .addr => "http.addr"

/-- What is demanded of the setting. -/
def demand (quote : String → String) (float : ℚ → String) : ConfigError → String
  | .capacity got => " must be > 0, got " ++ toString got
  | .overflowPolicy got => " must be 'reject' or 'block', got " ++ quote got
  | .count got => " must be > 0, got " ++ toString got
  | .maxRetries got => " must be >= 0, got " ++ toString got
  | .baseDelay => " must be > 0"
  | .multiplier got => " must be >= 1, got " ++ float got
  | .dir => " must not be empty"
  | .syncPolicy got => " must be 'every', 'batch', or 'none', got " ++ quote got
  | .addr => " must not be empty"

/-- The text of the error. -/
def message (quote : String → String) (float : ℚ → String) (err : ConfigError) : String :=
  err.path ++ err.demand quote float

end ConfigError

namespace Config

/-- `Default`. -/
def default : Config where
  queue := { capacity := 4096, overflowPolicy := "reject" }
  worker := { count := 8, defaultTimeout := 30000000000 }
  retry :=
    { maxRetries := 5
      baseDelay := 1000000000
      maxDelay := 60000000000
      multiplier := 2
      jitterRatio := 3 / 10 }
  wal := { dir := "data/wal", syncPolicy := "every" }
  http := { addr := ":8080", rateLimitBurst := 100, rateLimitPerSec := 50 }

/-- An environment variable that is set replaces the setting. -/
def override (value setting : String) : String :=
  if value = "" then setting else value

/-- One that is set to a positive number, for a floating-point setting. -/
def overrideFloat (parseFloat : String → Option ℚ) (value : String) (setting : ℚ) : ℚ :=
  if value = "" then
    setting
  else
    match parseFloat value with
    | some v => if 0 < v then v else setting
    | none => setting

/-- `Load`; `env` is `os.Getenv`. -/
def load (parseFloat : String → Option ℚ) (env : String → String) : Config :=
  { default with
    wal :=
      { dir := override (env "WAL_DIR") default.wal.dir
        syncPolicy := override (env "WAL_SYNC_POLICY") default.wal.syncPolicy }
    http :=
      { addr :=
          if env "HTTP_ADDR" = "" then
            if env "PORT" = "" then default.http.addr else ":" ++ env "PORT"
          else
            env "HTTP_ADDR"
        rateLimitBurst :=
          overrideFloat parseFloat (env "RATE_LIMIT_BURST") default.http.rateLimitBurst
        rateLimitPerSec :=
          overrideFloat parseFloat (env "RATE_LIMIT_PER_SEC") default.http.rateLimitPerSec }
    queue :=
      { default.queue with
        overflowPolicy := override (env "QUEUE_OVERFLOW_POLICY") default.queue.overflowPolicy } }

/-- One check of `Validate`. -/
def objection (bad : Bool) (err : ConfigError) : List ConfigError :=
  if bad then [err] else []

/-- `Validate`: the errors that are joined, none for settings that are accepted. -/
def validate (c : Config) : List ConfigError :=
  objection (decide (c.queue.capacity ≤ 0)) (.capacity c.queue.capacity) ++
  objection (decide (c.queue.overflowPolicy ≠ "reject" ∧ c.queue.overflowPolicy ≠ "block"))
    (.overflowPolicy c.queue.overflowPolicy) ++
  objection (decide (c.worker.count ≤ 0)) (.count c.worker.count) ++
  objection (decide (c.retry.maxRetries < 0)) (.maxRetries c.retry.maxRetries) ++
  objection (decide (c.retry.baseDelay ≤ 0)) .baseDelay ++
  objection (decide (c.retry.multiplier < 1)) (.multiplier c.retry.multiplier) ++
  objection (decide (c.wal.dir = "")) .dir ++
  objection
    (decide (c.wal.syncPolicy ≠ "every" ∧ c.wal.syncPolicy ≠ "batch" ∧ c.wal.syncPolicy ≠ "none"))
    (.syncPolicy c.wal.syncPolicy) ++
  objection (decide (c.http.addr = "")) .addr

/-- The settings that `Validate` accepts. -/
structure Accepted (c : Config) : Prop where
  capacity : 0 < c.queue.capacity
  overflowPolicy : c.queue.overflowPolicy = "reject" ∨ c.queue.overflowPolicy = "block"
  count : 0 < c.worker.count
  maxRetries : 0 ≤ c.retry.maxRetries
  baseDelay : 0 < c.retry.baseDelay
  multiplier : 1 ≤ c.retry.multiplier
  dir : c.wal.dir ≠ ""
  syncPolicy : c.wal.syncPolicy = "every" ∨ c.wal.syncPolicy = "batch" ∨ c.wal.syncPolicy = "none"
  addr : c.http.addr ≠ ""

theorem objection_eq_nil_iff
    {bad : Prop} [Decidable bad] {err : ConfigError} :
    objection (decide bad) err = [] ↔ ¬bad := by
  unfold objection
  by_cases h : bad
  · simp [h]
  · simp [h]

theorem validate_eq_nil_iff
    (c : Config) :
    c.validate = [] ↔ Accepted c := by
  unfold validate
  simp only [List.append_eq_nil_iff, objection_eq_nil_iff, and_assoc]
  constructor
  · rintro ⟨hcapacity, hoverflow, hcount, hretries, hbase, hmultiplier, hdir, hsync, haddr⟩
    exact
      { capacity := not_le.mp hcapacity
        overflowPolicy := by tauto
        count := not_le.mp hcount
        maxRetries := not_lt.mp hretries
        baseDelay := not_le.mp hbase
        multiplier := not_lt.mp hmultiplier
        dir := hdir
        syncPolicy := by tauto
        addr := haddr }
  · intro h
    have hoverflow := h.overflowPolicy
    have hsync := h.syncPolicy
    refine ⟨not_le.mpr h.capacity, ?_, not_le.mpr h.count, not_lt.mpr h.maxRetries,
      not_le.mpr h.baseDelay, not_lt.mpr h.multiplier, h.dir, ?_, h.addr⟩
    · tauto
    · tauto

/-- For accepted settings, `ParseSyncPolicy` does not fall back on `every`. -/
theorem Accepted.parseSyncPolicy_every_iff
    {c : Config}
    (h : Accepted c) :
    Wal.parseSyncPolicy c.wal.syncPolicy = .every ↔ c.wal.syncPolicy = "every" := by
  unfold Wal.parseSyncPolicy
  rcases h.syncPolicy with hs | hs | hs
  all_goals
    rw [hs]
    decide

/-- A check adds the path of its setting, or nothing. -/
theorem objection_paths
    (bad : Bool) (err : ConfigError) {rest : List ConfigError} {paths : List String}
    (hrest : (rest.map ConfigError.path).Sublist paths) :
    ((objection bad err ++ rest).map ConfigError.path).Sublist (err.path :: paths) := by
  cases bad with
  | false => exact hrest.cons _
  | true => exact hrest.cons_cons _

/-- A setting is reported at most once, and in the order of the settings. -/
theorem validate_paths
    (c : Config) :
    (c.validate.map ConfigError.path).Sublist
      ["queue.capacity", "queue.overflow_policy", "worker.count", "retry.max_retries",
        "retry.base_delay", "retry.multiplier", "wal.dir", "wal.sync_policy", "http.addr"] := by
  unfold validate
  rw [← List.append_nil (objection _ (.addr))]
  simp only [List.append_assoc]
  iterate 9 apply objection_paths
  exact List.nil_sublist _

/-- Every default passes its own check. -/
theorem default_accepted : Accepted default where
  capacity := by decide
  overflowPolicy := Or.inl rfl
  count := by decide
  maxRetries := by decide
  baseDelay := by decide
  multiplier := by decide
  dir := by decide
  syncPolicy := Or.inl rfl
  addr := by decide

/-- The configuration that the server loads is accepted, but for the two policies. -/
theorem load_validate_iff
    (parseFloat : String → Option ℚ) (env : String → String) :
    (load parseFloat env).validate = [] ↔
      (env "QUEUE_OVERFLOW_POLICY" = "" ∨ env "QUEUE_OVERFLOW_POLICY" = "reject" ∨
        env "QUEUE_OVERFLOW_POLICY" = "block") ∧
      (env "WAL_SYNC_POLICY" = "" ∨ env "WAL_SYNC_POLICY" = "every" ∨
        env "WAL_SYNC_POLICY" = "batch" ∨ env "WAL_SYNC_POLICY" = "none") := by
  have hoverflow : (load parseFloat env).queue.overflowPolicy =
      override (env "QUEUE_OVERFLOW_POLICY") "reject" := rfl
  have hsync : (load parseFloat env).wal.syncPolicy =
      override (env "WAL_SYNC_POLICY") "every" := rfl
  rw [validate_eq_nil_iff]
  constructor
  · intro h
    have hpolicy := h.overflowPolicy
    have hpolicy' := h.syncPolicy
    rw [hoverflow] at hpolicy
    rw [hsync] at hpolicy'
    unfold override at hpolicy hpolicy'
    constructor
    · split_ifs at hpolicy with hempty
      · exact Or.inl hempty
      · exact Or.inr hpolicy
    · split_ifs at hpolicy' with hempty
      · exact Or.inl hempty
      · exact Or.inr hpolicy'
  · rintro ⟨hpolicy, hpolicy'⟩
    refine
      { capacity := default_accepted.capacity
        overflowPolicy := ?_
        count := default_accepted.count
        maxRetries := default_accepted.maxRetries
        baseDelay := default_accepted.baseDelay
        multiplier := default_accepted.multiplier
        dir := ?_
        syncPolicy := ?_
        addr := ?_ }
    · rw [hoverflow, override]
      split_ifs with hempty
      · exact Or.inl rfl
      · exact hpolicy.resolve_left hempty
    · show override (env "WAL_DIR") "data/wal" ≠ ""
      unfold override
      split_ifs with hempty
      · decide
      · exact hempty
    · rw [hsync, override]
      split_ifs with hempty
      · exact Or.inl rfl
      · exact hpolicy'.resolve_left hempty
    · show (if env "HTTP_ADDR" = "" then
          if env "PORT" = "" then ":8080" else ":" ++ env "PORT"
        else env "HTTP_ADDR") ≠ ""
      split_ifs with hempty hport
      · decide
      · simp
      · exact hempty

theorem overrideFloat_pos
    {parseFloat : String → Option ℚ} {value : String} {setting : ℚ}
    (h : 0 < setting) :
    0 < overrideFloat parseFloat value setting := by
  unfold overrideFloat
  split_ifs with hempty
  · exact h
  · cases parseFloat value with
    | none =>
        exact h
    | some v =>
        show 0 < if 0 < v then v else setting
        split_ifs with hv
        · exact hv
        · exact h

/-- `Validate` does not look at the rate limit, but no variable makes it useless. -/
theorem load_rateLimit_pos
    (parseFloat : String → Option ℚ) (env : String → String) :
    0 < (load parseFloat env).http.rateLimitBurst ∧
      0 < (load parseFloat env).http.rateLimitPerSec := by
  have hburst : 0 < default.http.rateLimitBurst := by decide
  have hrate : 0 < default.http.rateLimitPerSec := by decide
  exact ⟨overrideFloat_pos hburst, overrideFloat_pos hrate⟩

theorem toNat_capacity_pos
    {c : Config}
    (h : c.validate = []) :
    0 < c.queue.capacity.toNat := by
  have hpos := ((validate_eq_nil_iff c).mp h).capacity
  omega

theorem maxRetries_nonneg
    {c : Config}
    (h : c.validate = []) :
    0 ≤ c.retry.maxRetries := by
  exact ((validate_eq_nil_iff c).mp h).maxRetries

/-- The part of the settings that `New` gives to the engine. -/
def engineConfig (c : Config) (h : c.validate = []) : Engine.Config where
  capacity := c.queue.capacity.toNat
  overflowPolicy := if c.queue.overflowPolicy = "block" then .block else .reject
  maxRetries := c.retry.maxRetries
  defaultTimeout := c.worker.defaultTimeout
  capacity_pos := toNat_capacity_pos h
  maxRetries_nonneg := maxRetries_nonneg h

/-- `New`. -/
def newEngine (quote : String → String) (float : ℚ → String) (c : Config) :
    Except String Engine :=
  if h : c.validate = [] then
    .ok (Engine.new (c.engineConfig h))
  else
    .error ("engine: invalid config: " ++
      "\n".intercalate (c.validate.map (ConfigError.message quote float)))

section NewEngine

variable {quote : String → String} {float : ℚ → String}

theorem newEngine_eq_ok_iff
    {c : Config} {e : Engine} :
    newEngine quote float c = .ok e ↔
      ∃ h : c.validate = [], Engine.new (c.engineConfig h) = e := by
  unfold newEngine
  split_ifs with h
  · simp [h]
  · simp [h]

/-- The server has an engine, but for a policy that is set to something else. -/
theorem newEngine_load_iff
    (parseFloat : String → Option ℚ) (env : String → String) :
    (∃ e, newEngine quote float (load parseFloat env) = .ok e) ↔
      (env "QUEUE_OVERFLOW_POLICY" = "" ∨ env "QUEUE_OVERFLOW_POLICY" = "reject" ∨
        env "QUEUE_OVERFLOW_POLICY" = "block") ∧
      (env "WAL_SYNC_POLICY" = "" ∨ env "WAL_SYNC_POLICY" = "every" ∨
        env "WAL_SYNC_POLICY" = "batch" ∨ env "WAL_SYNC_POLICY" = "none") := by
  rw [← load_validate_iff parseFloat env]
  constructor
  · rintro ⟨e, he⟩
    obtain ⟨hvalid, -⟩ := newEngine_eq_ok_iff.mp he
    exact hvalid
  · intro hvalid
    exact ⟨_, newEngine_eq_ok_iff.mpr ⟨hvalid, rfl⟩⟩

end NewEngine

end Config
end TaskQueue
