import PomaiCache.Database
import PomaiCache.IteratorRuns
import PomaiCache.Kernel
import PomaiCache.Sync
import PomaiCache.Membranes
import PomaiCache.GatewayKeys
import PomaiCache.GatewayReplay
import PomaiCache.GraphRecovery
import PomaiCache.AgentSearch
import PomaiCache.AgentIds
import PomaiCache.CApiScan
import PomaiCache.MembraneScan
import PomaiCache.SegmentIndex
import PomaiCache.SegmentRoundTrip
import PomaiCache.SearchMatches
import PomaiCache.SearchNewest
import PomaiCache.CompactionEnds
import PomaiCache.ReplayBounds
import PomaiCache.WalKeys
import PomaiCache.FlatStorage
import PomaiCache.SyncQueue
import PomaiCache.ManifestDamage
import PomaiCache.RootManifest
import PomaiCache.MemTableCalls
import PomaiCache.SegmentOffsets
import PomaiCache.SegmentScores
import PomaiCache.SemanticPointer
import PomaiCache.Bloom
import PomaiCache.Simplifier
import PomaiCache.KeyValueLimits
import PomaiCache.GraphExpansion
import PomaiCache.Sketch
import PomaiCache.PagePoolClock
import PomaiCache.Mailbox
import PomaiCache.ObjectLinker
import PomaiCache.Audio
import PomaiCache.PagePoolSlots
import PomaiCache.IngestNumbers
import PomaiCache.Chunking
import PomaiCache.MapRuns
