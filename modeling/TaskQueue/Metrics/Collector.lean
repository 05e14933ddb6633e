import Mathlib.Tactic
import TaskQueue.Queue.Task

/-!
# The metrics collector

`Metrics` of `internal/metrics/metrics.go`: the counters, the queue-depth gauge and the
samples of the two latencies, with the calls that the engine makes.  The atomic 64-bit
counters are integers here.
-/

namespace TaskQueue

open Queue

/-- `Metrics`. -/
structure Metrics where
  enqueueTotal : Int
  dequeueTotal : Int
  completeTotal : Int
  failTotal : Int
  retryTotal : Int
  deadTotal : Int
  queueDepth : Int
  enqueueSamples : List Duration
  executeSamples : List Duration

namespace Metrics

/-- `New`. -/
def new : Metrics where
  enqueueTotal := 0
  dequeueTotal := 0
  completeTotal := 0
  failTotal := 0
  retryTotal := 0
  deadTotal := 0
  queueDepth := 0
  enqueueSamples := []
  executeSamples := []

/-- Append a sample; of more than 10000 samples the last 5000 are kept. -/
def appendSample (samples : List Duration) (latency : Duration) : List Duration :=
  let appended := samples ++ [latency]
  if 10000 < appended.length then
    appended.drop (appended.length - 5000)
  else
    appended

/-- `RecordEnqueue`. -/
def recordEnqueue (m : Metrics) (latency : Duration) : Metrics :=
  { m with
    enqueueTotal := m.enqueueTotal + 1
    queueDepth := m.queueDepth + 1
    enqueueSamples := appendSample m.enqueueSamples latency }

/-- `RecordDequeue`. -/
def recordDequeue (m : Metrics) : Metrics :=
  { m with
    dequeueTotal := m.dequeueTotal + 1
    queueDepth := m.queueDepth - 1 }

/-- `RecordComplete`. -/
def recordComplete (m : Metrics) (execTime : Duration) : Metrics :=
  { m with
    completeTotal := m.completeTotal + 1
    executeSamples := appendSample m.executeSamples execTime }

/-- `RecordFail`. -/
def recordFail (m : Metrics) : Metrics :=
  { m with failTotal := m.failTotal + 1 }

/-- `RecordRetry`. -/
def recordRetry (m : Metrics) : Metrics :=
  { m with retryTotal := m.retryTotal + 1 }

/-- `RecordDead`. -/
def recordDead (m : Metrics) : Metrics :=
  { m with deadTotal := m.deadTotal + 1 }

end Metrics
end TaskQueue
