import WorkQueue.Foundation.FinMap
import WorkQueue.Foundation.Ledger
import WorkQueue.Foundation.Rounding
import WorkQueue.Foundation.SortedSet
import WorkQueue.Foundation.Splitting
import WorkQueue.Foundation.Transition
import WorkQueue.Json.Tree
import WorkQueue.Json.Text
import WorkQueue.Redis.Keys
import WorkQueue.Payload.Float
import WorkQueue.Payload.Job
import WorkQueue.Payload.Arguments
import WorkQueue.Payload.Cjson
import WorkQueue.Redis.Store
import WorkQueue.Redis.Scripts
import WorkQueue.Pool.Worker
import WorkQueue.Pool.Reaper
import WorkQueue.Pool.Lifecycle
import WorkQueue.System
import WorkQueue.System.Payloads
import WorkQueue.Accounting.Names
import WorkQueue.System.Effect
import WorkQueue.Accounting.Locks
import WorkQueue.System.Holding
import WorkQueue.Accounting.Retirement
import WorkQueue.System.Presence
import WorkQueue.Accounting.Concurrency
import WorkQueue.Accounting.Stopping
import WorkQueue.Delivery.Places
import WorkQueue.Delivery.Tracking
import WorkQueue.Delivery.Recovery
import WorkQueue.Accounting.LivePool
import WorkQueue.Delivery.Requeueing
import WorkQueue.Payload.Detour
import WorkQueue.Delivery.Detour
import WorkQueue.System.Supply
import WorkQueue.System.Scheduled
import WorkQueue.Unique.Fresh
import WorkQueue.Foundation.Contents
import WorkQueue.Unique.Flow
import WorkQueue.Unique.Pending
import WorkQueue.Unique.Updates
import WorkQueue.Unique.Duplicates
import WorkQueue.Unique.Retries
import WorkQueue.Unique.Interruption
import WorkQueue.Client.Deletion
import WorkQueue.Enqueue.Bulk
import WorkQueue.Foundation.Registry
import WorkQueue.Enqueue.Agreement
import WorkQueue.Periodic.Enqueuer
import WorkQueue.Periodic.Once
import WorkQueue.Foundation.Schedule
import WorkQueue.Periodic.Coverage
import WorkQueue.Periodic.Termination
import WorkQueue.Reaping.Rounds
import WorkQueue.Reaping.Agreement
import WorkQueue.Reaping.Resumption
import WorkQueue.Delivery.Attempts
import WorkQueue.Delivery.Fate
import WorkQueue.Enqueue.Delay
import WorkQueue.Pool.Observer
import WorkQueue.Client.Observations
import WorkQueue.Foundation.Shuffle
import WorkQueue.Pool.Sampler
import WorkQueue.Delivery.Drain
import WorkQueue.Delivery.DueOrder
import WorkQueue.Delivery.Relocation
import WorkQueue.Client.Retrying
import WorkQueue.Client.Heartbeats
import WorkQueue.Client.Queues
import WorkQueue.Enqueue.Alignment
import WorkQueue.Foundation.Nesting
import WorkQueue.Pool.Middleware
import WorkQueue.Foundation.PercentEncoding
import WorkQueue.Webui.Requests
import WorkQueue.Webui.DeadJobs
import WorkQueue.Delivery.QueueOrder
import WorkQueue.Foundation.Selection
import WorkQueue.Pool.FetchChoice
import WorkQueue.Foundation.Keyspace
import WorkQueue.Redis.Commands
import WorkQueue.Redis.KeyTexts
import WorkQueue.Redis.Lua
import WorkQueue.Redis.Slots
import WorkQueue.Foundation.Sharing
import WorkQueue.System.Namespaces
import WorkQueue.Foundation.Progress
import WorkQueue.Pool.Handshake
import WorkQueue.Pool.Waiting
import WorkQueue.Foundation.Clock
import WorkQueue.Reaping.Detection
import WorkQueue.System.RetrySet
import WorkQueue.Delivery.Backoff
