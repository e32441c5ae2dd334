import ConfigUpdate.Change.Examples
import ConfigUpdate.Change.Verification
import ConfigUpdate.Main
import ConfigUpdate.Proofs.SearchSoundness
import ConfigUpdate.Proofs.DiffRun
import ConfigUpdate.Proofs.SlicedApply
import ConfigUpdate.Proofs.DiffPlan
import ConfigUpdate.Proofs.SearchOrder
import ConfigUpdate.Proofs.StoreMoves
import ConfigUpdate.Proofs.DiffApply
import ConfigUpdate.Proofs.SecondWriter
import ConfigUpdate.Proofs.SplitScopes
import ConfigUpdate.Proofs.Replacement
import ConfigUpdate.Proofs.ZeroEffect
import ConfigUpdate.Proofs.EqualStates
import ConfigUpdate.Proofs.SingleWrites
import ConfigUpdate.Proofs.ProtectedNodes
import ConfigUpdate.Proofs.PortLimits
import ConfigUpdate.Proofs.TrafficRules
import ConfigUpdate.Proofs.ScopePlans
import ConfigUpdate.Proofs.WriteCalls
import ConfigUpdate.Proofs.WellFormedEdits
import ConfigUpdate.Proofs.PatchDelivery
import ConfigUpdate.Proofs.EmptyTables
import ConfigUpdate.Proofs.MemberOperations
import ConfigUpdate.Proofs.ScopeNames
import ConfigUpdate.Proofs.PatchGroups
import ConfigUpdate.Proofs.SplitPatches
import ConfigUpdate.Proofs.JsonReadBack
import ConfigUpdate.Proofs.DiskFiles
import ConfigUpdate.Proofs.FileStore
import ConfigUpdate.Proofs.DiskDirectories
import ConfigUpdate.Proofs.CheckpointMap
import ConfigUpdate.Proofs.ReadTrees
import ConfigUpdate.Proofs.Histories
import ConfigUpdate.Proofs.Rollback
import ConfigUpdate.Proofs.FileUpdates
import ConfigUpdate.Proofs.ScopedCommands
import ConfigUpdate.Proofs.HighestDifferences
import ConfigUpdate.Proofs.Precedence
import ConfigUpdate.Proofs.SearchBudget
import ConfigUpdate.Proofs.SearchFailure
import ConfigUpdate.Proofs.GroupedEdits
import ConfigUpdate.Proofs.TargetParts
import ConfigUpdate.Proofs.PatchReadBack
import ConfigUpdate.Proofs.LiveChecks
import ConfigUpdate.Proofs.PlanFailures
import ConfigUpdate.Proofs.NamespaceOverrides
import ConfigUpdate.Proofs.ReadableFiles
import ConfigUpdate.Proofs.LiteralMoves
import ConfigUpdate.Proofs.DryRuns
import ConfigUpdate.Proofs.ChangePatches
import ConfigUpdate.Proofs.WrittenAddresses
import ConfigUpdate.Proofs.KeyAncestry
import ConfigUpdate.Proofs.PublishedFields
