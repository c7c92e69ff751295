import SummitFlow.Cli.ServiceRebuild
import SummitFlow.Cli.ServiceRelease
import SummitFlow.Cli.StageInputs
import SummitFlow.ForStd.Descent
import SummitFlow.ForStd.ParentChains
import SummitFlow.ForStd.Regex
import SummitFlow.Python.Re
import SummitFlow.Services.PublicationCommand
import SummitFlow.Spec.AcceptanceReuse
import SummitFlow.Spec.AutomationReceipts
import SummitFlow.Spec.BackupApprovals
import SummitFlow.Spec.CaptureWindows
import SummitFlow.Spec.ClaimVisibility
import SummitFlow.Spec.CollectorDeployment
import SummitFlow.Spec.CommitScope
import SummitFlow.Spec.DeletionAncestors
import SummitFlow.Spec.DeletionSpelling
import SummitFlow.Spec.DependencyGraph
import SummitFlow.Spec.DetailQuota
import SummitFlow.Spec.DirtyPaths
import SummitFlow.Spec.FleetAllocation
import SummitFlow.Spec.FleetStreams
import SummitFlow.Spec.GitParsers
import SummitFlow.Spec.GuardClusters
import SummitFlow.Spec.GuardDepth
import SummitFlow.Spec.GuardDirectories
import SummitFlow.Spec.GuardDiscards
import SummitFlow.Spec.GuardLines
import SummitFlow.Spec.GuardNesting
import SummitFlow.Spec.GuardTermination
import SummitFlow.Spec.GuardWrappers
import SummitFlow.Spec.HeavyLanes
import SummitFlow.Spec.HeavyTurns
import SummitFlow.Spec.LeaseFence
import SummitFlow.Spec.LeaseFrame
import SummitFlow.Spec.LedgerAuthorization
import SummitFlow.Spec.LedgerDuplicates
import SummitFlow.Spec.MountProtection
import SummitFlow.Spec.NativeEvidence
import SummitFlow.Spec.NoLostUpdate
import SummitFlow.Spec.OwnedOperands
import SummitFlow.Spec.ProcessPages
import SummitFlow.Spec.ProcessTree
import SummitFlow.Spec.PruneBound
import SummitFlow.Spec.PrunePromise
import SummitFlow.Spec.QuickReuse
import SummitFlow.Spec.ReaderWire
import SummitFlow.Spec.ReleasePointers
import SummitFlow.Spec.ReleaseReceipts
import SummitFlow.Spec.ReleaseRuns
import SummitFlow.Spec.ReleaseSafety
import SummitFlow.Spec.ReleaseSteps
import SummitFlow.Spec.RepairFindings
import SummitFlow.Spec.RepairMerges
import SummitFlow.Spec.RetentionHistory
import SummitFlow.Spec.RollupRetention
import SummitFlow.Spec.RpcFraming
import SummitFlow.Spec.ScratchAge
import SummitFlow.Spec.SeriesPages
import SummitFlow.Spec.StageGlobs
import SummitFlow.Spec.StageVerdicts
import SummitFlow.Spec.SubtaskOrder
import SummitFlow.Spec.TaskClaims
import SummitFlow.Spec.TaskEvidence
import SummitFlow.Spec.WindowClosing
import SummitFlow.Spec.WriterSets
import SummitFlow.Tasks.ScratchRetention
import SummitFlow.Cli.SourceDigest
import SummitFlow.Spec.SourceDigestCache
import SummitFlow.Spec.SourceContents
import SummitFlow.Spec.ReleaseIsolation
import SummitFlow.ForStd.RankedGraph
import SummitFlow.Services.Outgoing
import SummitFlow.Spec.OutgoingAdmission
import SummitFlow.Spec.OutgoingHistory
import SummitFlow.Cli.MonitorMigration
import SummitFlow.ForStd.RelyGuarantee
import SummitFlow.Spec.MonitorConversion
import SummitFlow.Spec.MonitorStore
import SummitFlow.Spec.PointOwners
import SummitFlow.Spec.PointViews
import SummitFlow.Spec.SharedPoints
