import OrderService.Client
import OrderService.Config
import OrderService.Consumer.Dlq
import OrderService.Consumer.Fold
import OrderService.Consumer.Hops
import OrderService.Consumer.RetryWorker
import OrderService.Consumer.Runtime
import OrderService.Consumer.State
import OrderService.Consumer.StoreRun
import OrderService.Consumer.Transactions
import OrderService.Events
import OrderService.Lib.Eff
import OrderService.Lib.KeyedLog
import OrderService.Lib.Monitor
import OrderService.Lib.Run
import OrderService.Lib.Threads
import OrderService.Producer.KafkaProducer
import OrderService.Producer.Locking
import OrderService.Producer.Orders
import OrderService.Producer.Routes
import OrderService.Proof.AheadOfOffset
import OrderService.Proof.Changelog
import OrderService.Proof.Checkpoint
import OrderService.Proof.Client
import OrderService.Proof.Committer
import OrderService.Proof.CompactedTable
import OrderService.Proof.Confluence
import OrderService.Proof.Copies
import OrderService.Proof.DeltaRebuild
import OrderService.Proof.Drain
import OrderService.Proof.Enclosed
import OrderService.Proof.Invariance
import OrderService.Proof.Lifecycle
import OrderService.Proof.NoPoison
import OrderService.Proof.NoSkip
import OrderService.Proof.Ownership
import OrderService.Proof.Rebalance
import OrderService.Proof.Refinement
import OrderService.Proof.Requests
import OrderService.Proof.Restore
import OrderService.Proof.RetryHeaders
import OrderService.Proof.RetryLoss
import OrderService.Proof.Runtime
import OrderService.Proof.Settle
import OrderService.Proof.Store
import OrderService.Proof.StoreHistory
import OrderService.Python
import OrderService.World
import OrderService.Proof.Allocation
import OrderService.Proof.Outcomes
import OrderService.Proof.Violations
import OrderService.Proof.Agreement
import OrderService.Proof.Replay
import OrderService.Proof.ReplaySelection
import OrderService.Proof.Flush
import OrderService.Proof.Rewind
import OrderService.Proof.Pauses
import OrderService.Proof.Hops
import OrderService.Proof.Provenance
import OrderService.Proof.RetryBudget
import OrderService.Proof.EndlessHop
import OrderService.Consumer.CommitterRun
import OrderService.Proof.Offsets
import OrderService.Lib.Unicode
import OrderService.Lib.Json
import OrderService.Lib.JsonRoundTrip
import OrderService.Consumer.Codec
import OrderService.Proof.Codec
import OrderService.Proof.Publications
import OrderService.Consumer.Group
import OrderService.Proof.MemberStep
import OrderService.Proof.SingleWriter
import OrderService.Producer.Delivery
import OrderService.Proof.Delivery
import OrderService.Proof.Reinstatement
import OrderService.Lib.JsonDict
import OrderService.Consumer.Services
import OrderService.Proof.EventFormat
import OrderService.Producer.Bodies
import OrderService.Proof.Services
import OrderService.Proof.DeadLetters
import OrderService.Proof.Bodies
import OrderService.Proof.SnapshotFormat
import OrderService.Proof.Crashes
import OrderService.Lib.PartitionLog
import OrderService.Proof.ExactlyOnce
import OrderService.Proof.Reports
import OrderService.Lib.Watermark
import OrderService.Proof.AtMostOnce
