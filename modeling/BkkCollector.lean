import BkkCollector.Collector.Evidence
import BkkCollector.Collector.PresenceGaps
import BkkCollector.Logic.Threads
import BkkCollector.Realtime.DedupFlow
import BkkCollector.Realtime.DedupExpiry
import BkkCollector.Realtime.PresenceReplay
import BkkCollector.Storage.ParquetCompact
import BkkCollector.Storage.SideBySide
import BkkCollector.Storage.RawScan
import BkkCollector.Storage.CheckpointedRepair
import BkkCollector.Realtime.AlertsContent
import BkkCollector.Storage.FeedFits
import BkkCollector.Cli.LegacyHandled
import BkkCollector.Archive.RetentionRuns
import BkkCollector.Realtime.SchedulerDeadlines
import BkkCollector.Realtime.SchedulerSafety
import BkkCollector.PublicExporter.ReadersAgree
import BkkCollector.PublicExporter.HealthFaithful
import BkkCollector.Archive.StaticHistory
import BkkCollector.Archive.Backlog
import BkkCollector.Archive.StaticTimeline
import BkkCollector.Storage.JournalRuns
import BkkCollector.Collector.AuxiliaryState
import BkkCollector.Storage.SpoolEmpties
import BkkCollector.Collector.FrozenContent
import BkkCollector.Storage.ParquetWrite
import BkkCollector.Cli.RebuildOrder
import BkkCollector.Realtime.DedupPhases
import BkkCollector.Realtime.StopVisits
import BkkCollector.Frontend.Conditional
import BkkCollector.Collector.Redaction
import BkkCollector.Storage.SpoolCodec
import BkkCollector.Frontend.CompactForm
import BkkCollector.Frontend.Worker
import BkkCollector.Collector.PresenceAccepted
