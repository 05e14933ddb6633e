import TaskQueue.Engine.Recovery

/-!
# The record of a retry

`handleFailure` of `internal/engine/engine.go` marshals a map with the error text, the number
of attempts and the nanoseconds of `ScheduledAt`.  `applyEntry` unmarshals it into a
`map[string]interface{}`, where a number is a `float64`, and converts the numbers back.

`retryRecord_restored_iff` says which records restore what was written: those whose two
numbers have a significand of 53 bits.  A conversion of a `float64` outside the range of
`int64` has a result that depends on the machine; it is a parameter here, and a record counts
as restored if it is whatever the machine does.
-/

namespace TaskQueue
namespace Engine

open Lib (GoMap roundFloat64 HasSignificand53)
open Queue (Task TaskID)

/-- The JSON values in the record of a retry. -/
inductive JsonValue
  | string (text : String)
  | number (n : Int)
deriving DecidableEq, Repr

/-- What `json.Unmarshal` puts into an `interface{}` for them. -/
inductive Interface
  | string (text : String)
  | float64 (value : Int)
deriving DecidableEq, Repr

def JsonValue.decode : JsonValue → Interface
  | string text => .string text
  | number n => .float64 (roundFloat64 n)

/-- The object that `handleFailure` marshals, its keys in the order of `json.Marshal`. -/
def retryObject (error : String) (retryCount nextAt : Int) : List (String × JsonValue) :=
  [("error", .string error), ("next_at", .number nextAt), ("retry_count", .number retryCount)]

/-- `json.Unmarshal` of an object into a `map[string]interface{}`. -/
def unmarshalObject (object : List (String × JsonValue)) : GoMap String Interface :=
  object.foldl (fun rd member => rd.set member.1 member.2.decode) GoMap.empty

/-- The type assertion `v.(float64)`; `none` is a failed one. -/
def asFloat64 : Option Interface → Option Int
  | some (.float64 value) => some value
  | _ => none

/-- The type assertion `v.(string)`. -/
def asString : Option Interface → Option String
  | some (.string text) => some text
  | _ => none

/-- `int64(value)`, and `int(value)`; `outOfRange` is what the machine does. -/
def toInt64 (outOfRange : Int → Int) (value : Int) : Int :=
  if -2 ^ 63 ≤ value ∧ value < 2 ^ 63 then value else outOfRange value

theorem toInt64_of_range
    (outOfRange : Int → Int)
    {value : Int}
    (h : -2 ^ 63 ≤ value ∧ value < 2 ^ 63) :
    toInt64 outOfRange value = value :=
  if_pos h

/-- `applyEntry` for an `EntryRetry`, from the unmarshalled map on. -/
def applyRetryMap (outOfRange : Int → Int) (t : Task) (rd : GoMap String Interface) : Task :=
  { t with
    retryCount := ((asFloat64 (rd.get "retry_count")).map (toInt64 outOfRange)).getD t.retryCount
    scheduledAt := ((asFloat64 (rd.get "next_at")).map (toInt64 outOfRange)).getD t.scheduledAt
    lastError := (asString (rd.get "error")).getD t.lastError
    state := .scheduled }

section Restored

variable (outOfRange : Int → Int) (t : Task) (error : String) (retryCount nextAt : Int)

/-- What the reader makes of the record that the writer wrote. -/
theorem applyRetryMap_retryObject :
    applyRetryMap outOfRange t (unmarshalObject (retryObject error retryCount nextAt)) =
      { t with
        retryCount := toInt64 outOfRange (roundFloat64 retryCount)
        scheduledAt := toInt64 outOfRange (roundFloat64 nextAt)
        lastError := error
        state := .scheduled } := by
  simp [applyRetryMap, unmarshalObject, retryObject, GoMap.get_set, JsonValue.decode, asFloat64,
    asString]

/-- In the range of `int64`, the reader is the one of the engine's log. -/
theorem entryUpdate_ofRetry
    {retryCount nextAt : Int}
    (hcount : -2 ^ 63 ≤ roundFloat64 retryCount ∧ roundFloat64 retryCount < 2 ^ 63)
    (hnext : -2 ^ 63 ≤ roundFloat64 nextAt ∧ roundFloat64 nextAt < 2 ^ 63)
    (seq : Nat) (id : TaskID) (timestamp : Int) :
    entryUpdate ⟨seq, .retry, id, timestamp, .ofRetry error retryCount nextAt⟩ t =
      applyRetryMap outOfRange t (unmarshalObject (retryObject error retryCount nextAt)) := by
  rw [applyRetryMap_retryObject, toInt64_of_range outOfRange hcount,
    toInt64_of_range outOfRange hnext]
  rfl

end Restored

/-- A number comes back on every machine if and only if it is a `float64` value. -/
theorem toInt64_round_iff
    {n : Int}
    (hn : -2 ^ 63 ≤ n ∧ n < 2 ^ 63) :
    (∀ outOfRange, toInt64 outOfRange (roundFloat64 n) = n) ↔ HasSignificand53 n := by
  rw [← Lib.roundFloat64_eq_iff]
  constructor
  · intro h
    -- a machine that answers something else, should the value be out of range
    have hother := h (fun _ => n - 1)
    unfold toInt64 at hother
    split_ifs at hother
    · exact hother
    · dsimp only at hother
      omega
  · intro h outOfRange
    rw [h, toInt64_of_range outOfRange hn]

/--
The record of a retry restores the error, the number of attempts and the time if and only if
both numbers have a significand of 53 bits.
-/
theorem retryRecord_restored_iff
    (t : Task) (error : String) (retryCount nextAt : Int)
    (hcount : 1 ≤ retryCount ∧ retryCount < 2 ^ 63)
    (hnext : -2 ^ 63 ≤ nextAt ∧ nextAt < 2 ^ 63) :
    (∀ outOfRange,
        applyRetryMap outOfRange t (unmarshalObject (retryObject error retryCount nextAt)) =
          { t with
            retryCount := retryCount
            scheduledAt := nextAt
            lastError := error
            state := .scheduled }) ↔
      HasSignificand53 retryCount ∧ HasSignificand53 nextAt := by
  have hrange : -2 ^ 63 ≤ retryCount ∧ retryCount < 2 ^ 63 := by omega
  rw [← toInt64_round_iff hrange, ← toInt64_round_iff hnext]
  simp only [applyRetryMap_retryObject]
  constructor
  · intro h
    exact ⟨fun outOfRange => congrArg Task.retryCount (h outOfRange),
      fun outOfRange => congrArg Task.scheduledAt (h outOfRange)⟩
  · rintro ⟨hc, hs⟩ outOfRange
    rw [hc outOfRange, hs outOfRange]

/-- The result of a conversion out of the range on amd64. -/
def minInt64 (_ : Int) : Int :=
  -2 ^ 63

/-- A time in December 2025 that is a multiple of 256 ns. -/
theorem retryRecord_restored_iff_aligned :
    applyRetryMap minInt64 Task.zero
        (unmarshalObject (retryObject "boom" 1 1765000000123456768)) =
      { Task.zero with
        retryCount := 1
        scheduledAt := 1765000000123456768
        lastError := "boom"
        state := .scheduled } :=
  (retryRecord_restored_iff Task.zero "boom" 1 1765000000123456768 (by decide) (by decide)).mpr
    ⟨⟨1, 0, by decide, by decide⟩, ⟨6894531250482253, 8, by decide, by decide⟩⟩ minInt64

/-- A time that is 21 ns later comes back as that one. -/
theorem retryRecord_early :
    (applyRetryMap minInt64 Task.zero
        (unmarshalObject (retryObject "boom" 1 1765000000123456789))).scheduledAt =
      1765000000123456768 := by
  have hround : roundFloat64 1765000000123456789 = 1765000000123456768 := by decide +kernel
  have hrange : (-2 ^ 63 : Int) ≤ 1765000000123456768 ∧ 1765000000123456768 < (2 ^ 63 : Int) := by
    decide
  rw [applyRetryMap_retryObject, hround]
  exact toInt64_of_range minInt64 hrange

end Engine
end TaskQueue
