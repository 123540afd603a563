import ChronosMatch.Engine.Batch
import ChronosMatch.Engine.FailedOrders
import ChronosMatch.Engine.FinishedOrders
import ChronosMatch.Engine.MemorySafety
import ChronosMatch.Engine.Priority
import ChronosMatch.Monitor.DashboardSession
import ChronosMatch.Monitor.DepthTotals
import ChronosMatch.Monitor.HandoffRuns
import ChronosMatch.Monitor.MarketLedger
import ChronosMatch.Monitor.RejectedOrders
import ChronosMatch.Monitor.Reset
import ChronosMatch.Monitor.SweepDetection
import ChronosMatch.Monitor.WhalePanel
import ChronosMatch.Analysis.Benchmark
import ChronosMatch.Analysis.Charts
import ChronosMatch.Analysis.Percentile
import ChronosMatch.Persistence.ExactlyOnce
import ChronosMatch.Persistence.InsertCounts
import ChronosMatch.Persistence.Queries
import ChronosMatch.Persistence.Restart
import ChronosMatch.DataProcessing.FirehoseProgress
import ChronosMatch.Ipc.Attach
import ChronosMatch.Ipc.HeaderStores
import ChronosMatch.Ipc.LockedRingOpen
import ChronosMatch.Ipc.OrderRecords
import ChronosMatch.Ipc.QueueRuns
import ChronosMatch.Ipc.RingRace
import ChronosMatch.Ipc.Subscribers
import ChronosMatch.Analysis.PrintedBook
import ChronosMatch.Persistence.Backoff
import ChronosMatch.Persistence.Shutdown
