import TaskQueue.Lib.Runs
import TaskQueue.Lib.CondVar
import TaskQueue.Lib.Bytes
import TaskQueue.Queue.Task
import TaskQueue.Queue.RingBuffer
import TaskQueue.Queue.Monitor
import TaskQueue.Lib.BoundedQueue
import TaskQueue.Queue.Fifo
import TaskQueue.Wal.Record
import TaskQueue.Wal.Append
import TaskQueue.Lib.Pieces
import TaskQueue.Wal.Repair
import TaskQueue.Wal.Unsynced
import TaskQueue.Lib.GoMap
import TaskQueue.Lib.IndexedHeap
import TaskQueue.Lib.HeapOrder
import TaskQueue.Lib.PriorityBag
import TaskQueue.Queue.DelayedHeap
import TaskQueue.Queue.Removal
import TaskQueue.Queue.PriorityQueue
import TaskQueue.Lib.Float64
import TaskQueue.Wal.Log
import TaskQueue.Wal.Limits
import TaskQueue.Lib.Checksum
import TaskQueue.Wal.Damage
import TaskQueue.Wal.Snapshot
import TaskQueue.Lib.Burst
import TaskQueue.Wal.Burst
import TaskQueue.Engine.State
import TaskQueue.Engine.Operations
import TaskQueue.Engine.Recovery
import TaskQueue.Engine.RetryRecord
import TaskQueue.Engine.Runtime
import TaskQueue.Engine.System
import TaskQueue.Engine.SnapshotCodec
import TaskQueue.Engine.Effects
import TaskQueue.Engine.SchedulerPass
import TaskQueue.Engine.Requeue
import TaskQueue.Engine.RecoverOrder
import TaskQueue.Engine.FailedSubmit
import TaskQueue.Engine.FailedCancel
import TaskQueue.Metrics.Collector
import TaskQueue.Engine.QueueDepth
import TaskQueue.Engine.Reload
import TaskQueue.Engine.Files
import TaskQueue.Engine.Placement
import TaskQueue.Engine.Places
import TaskQueue.Engine.Interrupted
import TaskQueue.Engine.Attempts
import TaskQueue.Engine.Fate
import TaskQueue.Engine.Acknowledged
import TaskQueue.Engine.PowerLoss
import TaskQueue.Engine.FailedCheckpoint
import TaskQueue.Engine.DeadLetters
import TaskQueue.Engine.Replayed
import TaskQueue.Lib.Overwrite
import TaskQueue.Engine.Overlap
import TaskQueue.Engine.KeyReuse
import TaskQueue.Lib.Custody
import TaskQueue.Lib.Attempts
import TaskQueue.Concurrent.World
import TaskQueue.Concurrent.Steps
import TaskQueue.Concurrent.Holders
import TaskQueue.Concurrent.Shutdown
import TaskQueue.Concurrent.Tracking
import TaskQueue.Concurrent.Logged
import TaskQueue.Concurrent.Agreement
import TaskQueue.Concurrent.Timing
import TaskQueue.Concurrent.Finality
import TaskQueue.Concurrent.Rotation
import TaskQueue.Concurrent.Observed
import TaskQueue.Concurrent.Keys
import TaskQueue.Lib.LockOrder
import TaskQueue.Concurrent.Locks
import TaskQueue.Concurrent.Wakeup
import TaskQueue.Lib.Ledger
import TaskQueue.Lib.Simulation
import TaskQueue.Lib.Measure
import TaskQueue.Concurrent.Atomic
import TaskQueue.Concurrent.Progress
import TaskQueue.Concurrent.Transitions
import TaskQueue.Concurrent.Journal
import TaskQueue.Concurrent.CleanRestart
import TaskQueue.Concurrent.Counters
import TaskQueue.Lib.Decimal
import TaskQueue.Engine.Identifiers
import TaskQueue.Engine.Integrity
import TaskQueue.Lib.Window
import TaskQueue.Api.Server
import TaskQueue.Api.Tasks
import TaskQueue.Api.Durations
import TaskQueue.Api.Paging
import TaskQueue.Api.Browsing
import TaskQueue.Lib.Quantile
import TaskQueue.Metrics.Percentiles
import TaskQueue.Config.Validate
import TaskQueue.Retry.NextDelay
import TaskQueue.Api.RateLimit
