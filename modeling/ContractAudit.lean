import ContractAudit.Main
import ContractAudit.Coverage
import ContractAudit.Mutation.All
import ContractAudit.Export
import ContractAudit.Upgrade.Checks
import ContractAudit.View
import ContractAudit.Proofs.Dominance
import ContractAudit.Proofs.EdgeSymmetry
import ContractAudit.Proofs.Erasure
import ContractAudit.Proofs.Joins
import ContractAudit.Proofs.ReachingDefinitions
import ContractAudit.Proofs.SingleAssignment
import ContractAudit.Proofs.Leads
import ContractAudit.Proofs.Declarations
import ContractAudit.Proofs.CallEffects
import ContractAudit.Proofs.Summaries
import ContractAudit.Proofs.StoragePositions
import ContractAudit.Proofs.TupleAssignment
import ContractAudit.Proofs.ReadingOrder
import ContractAudit.Proofs.UsingTables
import ContractAudit.Proofs.LocalNames
import ContractAudit.Proofs.LocalUses
import ContractAudit.Proofs.LostWrites
import ContractAudit.Proofs.FoldedTruth
import ContractAudit.Proofs.CalledCode
import ContractAudit.Proofs.Screening
import ContractAudit.Proofs.Upgrades
import ContractAudit.Proofs.Patches
import ContractAudit.Proofs.Occurrences
import ContractAudit.Proofs.Divisions
import ContractAudit.Proofs.ImportedNames
import ContractAudit.Proofs.CallPaths
import ContractAudit.Proofs.Modifiers
import ContractAudit.Proofs.LineCounts
import ContractAudit.Proofs.Silences
