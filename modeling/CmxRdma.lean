import CmxRdma.Lib.Transition
import CmxRdma.Lib.History
import CmxRdma.Lib.Calls
import CmxRdma.Lib.Balance
import CmxRdma.Lib.LittleEndian
import CmxRdma.Lib.ByteRegion
import CmxRdma.Lib.RecencyMap
import CmxRdma.Lib.RecencyInclusion
import CmxRdma.Lib.RecencySafety
import CmxRdma.Lib.RecencyCompetition
import CmxRdma.Lib.OwedUpdates
import CmxRdma.Lib.Gather
import CmxRdma.Lib.Slices
import CmxRdma.Lib.Binary64
import CmxRdma.Lib.Digest
import CmxRdma.Lib.Crc32
import CmxRdma.Lib.Text
import CmxRdma.Lib.SortedMap
import CmxRdma.Lib.Clockwise
import CmxRdma.Lib.FiniteMap
import CmxRdma.Lib.LeasedStore
import CmxRdma.Lib.FairLocks
import CmxRdma.Platform
import CmxRdma.Memory.Pool
import CmxRdma.Memory.Partition
import CmxRdma.Transport.Mock
import CmxRdma.Transport.MockMemory
import CmxRdma.Transport.ConnectionPool
import CmxRdma.Transport.HealthCheck
import CmxRdma.Transport.Healing
import CmxRdma.BlockStore.Block
import CmxRdma.BlockStore.Allocator
import CmxRdma.BlockStore.LiveBlocks
import CmxRdma.BlockStore.Corruption
import CmxRdma.BlockStore.Eviction
import CmxRdma.BlockStore.EvictionOrder
import CmxRdma.BlockStore.RecencyOrder
import CmxRdma.BlockStore.SlabSlots
import CmxRdma.BlockStore.Index
import CmxRdma.BlockStore.IndexRefinement
import CmxRdma.BlockStore.IndexInclusion
import CmxRdma.BlockStore.RecentUse
import CmxRdma.BlockStore.IndexConcurrency
import CmxRdma.BlockStore.IndexOvershoot
import CmxRdma.BlockStore.IndexProgress
import CmxRdma.BlockStore.IndexCompetition
import CmxRdma.Agent.Proto
import CmxRdma.Agent.RemoteIndex
import CmxRdma.Agent.RemoteHistory
import CmxRdma.Agent.Grpc
import CmxRdma.Agent.Interleaving
import CmxRdma.Agent.Ownership
import CmxRdma.Agent.Generations
import CmxRdma.Agent.CrossKeyRead
import CmxRdma.Agent.LockGranularity
import CmxRdma.Agent.Conservation
import CmxRdma.Agent.MakeRoom
import CmxRdma.Agent.ByteMap
import CmxRdma.Agent.ByteMapRefinement
import CmxRdma.Agent.SharedCache
import CmxRdma.Agent.Retention
import CmxRdma.Agent.Panics
import CmxRdma.Agent.BatchLookup
import CmxRdma.Agent.Accounting
import CmxRdma.Agent.StoreStreams
import CmxRdma.Agent.DeleteByHash
import CmxRdma.Agent.Placement
import CmxRdma.Agent.Preference
import CmxRdma.Agent.Metadata
import CmxRdma.Agent.Cluster
import CmxRdma.Agent.Departures
import CmxRdma.Agent.Membership
import CmxRdma.Agent.PlacementAgreement
import CmxRdma.Agent.Leases
import CmxRdma.Agent.LeaseEnds
import CmxRdma.Agent.LeaseRefinement
import CmxRdma.Agent.MetadataLocks
import CmxRdma.Agent.Config
import CmxRdma.Agent.Pressure
import CmxRdma.Agent.Backpressure
import CmxRdma.Agent.KeyRoundTrip
import CmxRdma.Agent.Publishing
import CmxRdma.Agent.SelfLookup
import CmxRdma.Agent.Federation
import CmxRdma.Agent.LookupOrder
import CmxRdma.Client.Hashing
import CmxRdma.Agent.ModelIsolation
import CmxRdma.Client.Client
import CmxRdma.Client.Connectors
import CmxRdma.Client.AsyncClient
import CmxRdma.Client.Interchange
import CmxRdma.Client.VllmConnector
import CmxRdma.Client.PendingLoads
import CmxRdma.Client.VllmScheduler
import CmxRdma.Client.MatchedTokens
import CmxRdma.Client.LayerSaves
import CmxRdma.Client.PassCost
import CmxRdma.Client.EngineLoop
import CmxRdma.Client.LoadFlow
import CmxRdma.Client.Provenance
