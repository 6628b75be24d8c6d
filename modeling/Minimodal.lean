import Minimodal.Lib.Assoc
import Minimodal.Lib.Effect
import Minimodal.Lib.Bucket
import Minimodal.Lib.Count
import Minimodal.Lib.Machine
import Minimodal.Lib.Once
import Minimodal.Lib.Linearize
import Minimodal.Lib.Thread
import Minimodal.Lib.Greedy
import Minimodal.Lib.Mailbox
import Minimodal.Lib.Utf8
import Minimodal.Lib.Split
import Minimodal.Lib.Slack
import Minimodal.Lib.Recency
import Minimodal.Lib.Ring
import Minimodal.Lib.Pieces
import Minimodal.Lib.Samples
import Minimodal.Store.Record
import Minimodal.Store.Bolt
import Minimodal.Store.Fsm
import Minimodal.Store.Replay
import Minimodal.Store.Snapshot
import Minimodal.Store.Clients
import Minimodal.Store.Replicas
import Minimodal.Store.Idempotency
import Minimodal.Raft.Store
import Minimodal.Raft.Refine
import Minimodal.Raft.Contention
import Minimodal.Raft.Versions
import Minimodal.Server.Pool
import Minimodal.Server.Results
import Minimodal.Server.Hub
import Minimodal.Server.Mutators
import Minimodal.Server.Memory
import Minimodal.Server.Threads
import Minimodal.Server.Handlers
import Minimodal.Server.Machine
import Minimodal.Server.Effects
import Minimodal.Server.Step
import Minimodal.Server.Evolve
import Minimodal.Server.Durable
import Minimodal.Server.Terminal
import Minimodal.Server.Payload
import Minimodal.Server.Writes
import Minimodal.Server.Status
import Minimodal.Server.Pending
import Minimodal.Server.Reaper
import Minimodal.Server.Retries
import Minimodal.Server.Reassign
import Minimodal.Server.Processes
import Minimodal.Server.Redispatch
import Minimodal.Server.Cache
import Minimodal.Server.Recovery
import Minimodal.Server.Watch
import Minimodal.Server.Attempts
import Minimodal.Server.Attribution
import Minimodal.Server.Causes
import Minimodal.Server.Counters
import Minimodal.Server.Streams
import Minimodal.Server.Entries
import Minimodal.Server.Lines
import Minimodal.Server.WatchJob
import Minimodal.Server.Delivery
import Minimodal.Server.Views
import Minimodal.Server.Calls
import Minimodal.Server.Accounting
import Minimodal.Server.TailLines
import Minimodal.Server.Truncate
import Minimodal.Server.Legacy
import Minimodal.Server.Dispatch
import Minimodal.Server.Channels
import Minimodal.Server.Cancel
import Minimodal.Server.Lru
import Minimodal.Server.ColdStarts
import Minimodal.Autoscaler.Tick
import Minimodal.Autoscaler.ScaleDown
import Minimodal.Autoscaler.Policy
import Minimodal.Autoscaler.Demand
import Minimodal.Autoscaler.ScaleUp
import Minimodal.Autoscaler.Launcher
import Minimodal.Autoscaler.Shutdown
import Minimodal.Autoscaler.Leases
import Minimodal.Autoscaler.Saturation
import Minimodal.Worker.Python
import Minimodal.Worker.Executor
import Minimodal.Worker.Servicer
import Minimodal.Worker.Report
import Minimodal.Worker.Outcome
import Minimodal.Worker.LineBuffer
import Minimodal.Worker.Logstream
import Minimodal.Worker.WarmPool
import Minimodal.Worker.Framing
import Minimodal.Raft.Node
import Minimodal.Raft.Cluster
import Minimodal.Raft.Failover
import Minimodal.Raft.Leadership
import Minimodal.Raft.FollowUp
import Minimodal.Sdk.Client
import Minimodal.System.Machine
import Minimodal.System.Step
import Minimodal.System.Origin
import Minimodal.System.Remote
import Minimodal.System.Deadline
import Minimodal.Worker.Heartbeat
import Minimodal.System.Membership
import Minimodal.System.Rejoin
import Minimodal.Worker.Router
import Minimodal.Worker.Process
import Minimodal.Worker.Tasks
import Minimodal.Worker.Children
import Minimodal.Worker.Orphans
