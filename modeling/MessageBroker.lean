import MessageBroker.Lib.BigEndian
import MessageBroker.Lib.Crc32
import MessageBroker.Lib.Program
import MessageBroker.Lib.Script
import MessageBroker.Lib.Reports
import MessageBroker.Lib.Touches
import MessageBroker.Lib.BinarySearch
import MessageBroker.Lib.Proto
import MessageBroker.Lib.InsertionSort
import MessageBroker.Model
import MessageBroker.Storage.Format
import MessageBroker.Lib.Occurs
import MessageBroker.Storage.FormatRoundTrip
import MessageBroker.Storage.BatchRoundTrip
import MessageBroker.Storage.DecodeSound
import MessageBroker.Storage.DecodeReads
import MessageBroker.Storage.Canonical
import MessageBroker.Storage.Files
import MessageBroker.Storage.Segment
import MessageBroker.Storage.Store
import MessageBroker.Storage.Recovery
import MessageBroker.Storage.Retention
import MessageBroker.Storage.FileRules
import MessageBroker.Storage.Extent
import MessageBroker.Storage.DiskState
import MessageBroker.Storage.IndexParse
import MessageBroker.Storage.RecoveryScan
import MessageBroker.Storage.Changed
import MessageBroker.Storage.RecoveryIndex
import MessageBroker.Storage.Opening
import MessageBroker.Storage.Sampling
import MessageBroker.Storage.Resampling
import MessageBroker.Storage.Represent
import MessageBroker.Storage.Blank
import MessageBroker.Storage.Appending
import MessageBroker.Storage.Writing
import MessageBroker.Storage.Retaining
import MessageBroker.Storage.Trimming
import MessageBroker.Storage.Reading
import MessageBroker.Storage.Closing
import MessageBroker.Lib.Runs
import MessageBroker.Lib.Lifetimes
import MessageBroker.Storage.Footprint
import MessageBroker.Storage.Session
import MessageBroker.Storage.Tracking
import MessageBroker.Storage.History
import MessageBroker.Storage.Refinement
import MessageBroker.Storage.HealthyDisk
import MessageBroker.Storage.Exhausted
import MessageBroker.Storage.Crashes
import MessageBroker.Storage.Invariant
import MessageBroker.Storage.Corruption
import MessageBroker.Storage.FailedAppend
import MessageBroker.Configuration
import MessageBroker.Storage.LengthFields
import MessageBroker.Storage.SampledAppend
import MessageBroker.Storage.IndexAgreement
import MessageBroker.Storage.Sound
import MessageBroker.Storage.GreedyReads
import MessageBroker.Storage.RetentionSafety
import MessageBroker.Storage.RetentionPolicy
import MessageBroker.Storage.IndexForgery
import MessageBroker.Offsets.Store
import MessageBroker.Offsets.Cursor
import MessageBroker.Offsets.Entries
import MessageBroker.Offsets.Scan
import MessageBroker.Offsets.Damage
import MessageBroker.Offsets.Replay
import MessageBroker.Offsets.Session
import MessageBroker.Offsets.Durable
import MessageBroker.Topics.Manager
import MessageBroker.Topics.TreeRules
import MessageBroker.Topics.Loading
import MessageBroker.Topics.Creating
import MessageBroker.Topics.Session
import MessageBroker.Topics.Clobbering
import MessageBroker.Topics.Registry
import MessageBroker.Topics.Journals
import MessageBroker.Topics.Streams
import MessageBroker.Topics.Housing
import MessageBroker.Topics.Founding
import MessageBroker.Topics.Expiry
import MessageBroker.Broker.Handler
import MessageBroker.Broker.Delivery
import MessageBroker.Broker.Server
import MessageBroker.Broker.Committed
import MessageBroker.Broker.Limits
import MessageBroker.Broker.Isolation
import MessageBroker.Broker.Chronicle
import MessageBroker.Broker.Promises
import MessageBroker.Broker.Restart
import MessageBroker.Broker.Admin
import MessageBroker.Broker.Consumers
import MessageBroker.Lib.Servers
import MessageBroker.Broker.Lifecycle
import MessageBroker.Broker.Teardown
import MessageBroker.Broker.ServerCalls
import MessageBroker.Broker.Schedules
import MessageBroker.Broker.Progress
import MessageBroker.Bench.Producer
import MessageBroker.Bench.Production
import MessageBroker.Bench.Coverage
import MessageBroker.Bench.Benchmark
import MessageBroker.Bench.Consumer
import MessageBroker.Bench.Accounting
import MessageBroker.Bench.Consumption
import MessageBroker.Storage.PowerLoss
