import Dfmcp.Library.Machine
import Dfmcp.Library.OrderedMap
import Dfmcp.Library.Wire
import Dfmcp.Library.Replay
import Dfmcp.Library.Runs
import Dfmcp.Library.Kleene
import Dfmcp.Library.Ranking
import Dfmcp.Library.Codes
import Dfmcp.Library.HashTree
import Dfmcp.Core.Digest
import Dfmcp.Core.Basic
import Dfmcp.Core.Lease
import Dfmcp.Core.LeaseProof
import Dfmcp.Core.Clock
import Dfmcp.Core.ClockProof
import Dfmcp.Core.Roles
import Dfmcp.Core.RolesProof
import Dfmcp.World.Model
import Dfmcp.World.Delta
import Dfmcp.World.Records
import Dfmcp.World.DeltaProof
import Dfmcp.World.Rebase
import Dfmcp.World.RebaseProof
import Dfmcp.World.MergeProof
import Dfmcp.World.WitnessProof
import Dfmcp.World.Ledger
import Dfmcp.World.LedgerProof
import Dfmcp.World.Publication
import Dfmcp.World.PublicationProof
import Dfmcp.World.CanonicalDecode
import Dfmcp.World.CanonicalDecodeProof
import Dfmcp.World.Terrain
import Dfmcp.World.Laboratory
import Dfmcp.World.Query
import Dfmcp.World.QueryProof
import Dfmcp.World.Evidence
import Dfmcp.World.EvidenceProof
import Dfmcp.World.Retention
import Dfmcp.World.RetentionProof
import Dfmcp.World.Merkle
import Dfmcp.World.MerkleProof
import Dfmcp.World.QueryPage
import Dfmcp.World.QueryIdentityProof
import Dfmcp.World.QueryPageProof
import Dfmcp.World.Completeness
import Dfmcp.World.CompletenessProof
import Dfmcp.Library.FrameLog
import Dfmcp.Core.Context
import Dfmcp.Core.ContextProof
import Dfmcp.Core.AnchorV2
import Dfmcp.Core.AnchorV2Proof
import Dfmcp.Adapter.EffectJournal
import Dfmcp.Adapter.EffectFrameProof
import Dfmcp.Adapter.EffectActionProof
import Dfmcp.Adapter.EffectJournalProof
import Dfmcp.Intent.Action
import Dfmcp.Intent.AlertFsm
import Dfmcp.Intent.AlertFsmProof
import Dfmcp.World.Normal
import Dfmcp.Intent.Plan
import Dfmcp.Intent.Obligation
import Dfmcp.Intent.ObligationProof
import Dfmcp.Adapter.Ipc
import Dfmcp.Adapter.Transceiver
import Dfmcp.Adapter.TransceiverProof
import Dfmcp.Adapter.PauseCommit
import Dfmcp.Adapter.PauseCommitProof
import Dfmcp.Library.Method
import Dfmcp.Library.Budget
import Dfmcp.Library.Flow
import Dfmcp.Library.Residual
import Dfmcp.Library.Labels
import Dfmcp.Library.Breadth
import Dfmcp.World.WorkforceAllocation
import Dfmcp.World.WorkforceAllocationProof
import Dfmcp.World.WorkforceSolverProof
import Dfmcp.World.WorkforceOptimalProof
import Dfmcp.World.InventoryAllocation
import Dfmcp.World.InventoryAllocationProof
import Dfmcp.World.InventoryOptimalProof
import Dfmcp.World.JournalDelta
import Dfmcp.World.JournalDeltaProof
import Dfmcp.Library.Layers
import Dfmcp.World.GraphQuery
import Dfmcp.World.GraphIndexProof
import Dfmcp.World.GraphTraversalProof
import Dfmcp.World.MapRegion
import Dfmcp.World.MapRegionProof
import Dfmcp.World.ReachabilityProof
import Dfmcp.World.NormalProof
import Dfmcp.World.NormalBytesProof
import Dfmcp.World.AccessProof
import Dfmcp.World.Archive
import Dfmcp.World.ArchiveProof
import Dfmcp.World.TerrainWrite
import Dfmcp.World.TerrainWriteProof
import Dfmcp.World.Attention
import Dfmcp.World.Search
import Dfmcp.World.WithheldProof
import Dfmcp.Library.Matching
import Dfmcp.Intent.Labor
import Dfmcp.Intent.LaborMatchingProof
import Dfmcp.Intent.LaborProof
import Dfmcp.Library.Topological
import Dfmcp.Library.Production
import Dfmcp.Intent.Logistics
import Dfmcp.Intent.LogisticsActions
import Dfmcp.Intent.LogisticsOrderProof
import Dfmcp.Intent.LogisticsProof
import Dfmcp.Intent.LogisticsPlanProof
import Dfmcp.Intent.LogisticsGateProof
import Dfmcp.Library.Augmenting
import Dfmcp.Adapter.Authority
import Dfmcp.Lab.Faults
import Dfmcp.Library.Fragments
import Dfmcp.Adapter.IpcStream
import Dfmcp.Intent.EffectsProof
import Dfmcp.Library.Staffing
import Dfmcp.Intent.ServiceProof
import Dfmcp.Adapter.DeltaScannerProof
import Dfmcp.Adapter.RunDispatchProof
import Dfmcp.World.OccupancyProof
import Dfmcp.Library.Splice
import Dfmcp.Library.Exact
import Dfmcp.Adapter.DigDesignation
import Dfmcp.Adapter.DigDesignationProof
import Dfmcp.Adapter.DigPredictionProof
import Dfmcp.Adapter.DigBlueprint
import Dfmcp.Adapter.DigCoverProof
import Dfmcp.Adapter.DigBlueprintProof
import Dfmcp.Adapter.DigBlueprintTextProof
import Dfmcp.Adapter.DigBlueprintCodecProof
import Dfmcp.Mcp.WorldChanges
import Dfmcp.Mcp.WorldChangesProof
import Dfmcp.Mcp.LevelChangesProof
import Dfmcp.Mcp.DescribeProof
