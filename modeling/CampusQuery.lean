import CampusQuery.Main
import CampusQuery.Proofs.Answer.Aggregate
import CampusQuery.Proofs.Answer.Columns
import CampusQuery.Proofs.Answer.Dependence
import CampusQuery.Proofs.Answer.Extremes
import CampusQuery.Proofs.Answer.Group
import CampusQuery.Proofs.Answer.GroupOrder
import CampusQuery.Proofs.Answer.Mean
import CampusQuery.Proofs.Answer.MeanBounds
import CampusQuery.Proofs.Answer.OwnKeys
import CampusQuery.Proofs.Answer.Partition
import CampusQuery.Proofs.Answer.Permutation
import CampusQuery.Proofs.Answer.Selection
import CampusQuery.Proofs.Answer.Sort
import CampusQuery.Proofs.Answer.Stored
import CampusQuery.Proofs.Answer.Verdict
import CampusQuery.Proofs.Catalog.NormalForm
import CampusQuery.Proofs.Catalog.Record
import CampusQuery.Proofs.Disk.FileTree
import CampusQuery.Proofs.Disk.Names
import CampusQuery.Proofs.Engine.Boot
import CampusQuery.Proofs.Engine.Change
import CampusQuery.Proofs.Engine.Failure
import CampusQuery.Proofs.Engine.Journal
import CampusQuery.Proofs.Engine.Opening
import CampusQuery.Proofs.Engine.OwnFiles
import CampusQuery.Proofs.Engine.Reachable
import CampusQuery.Proofs.Entries
import CampusQuery.Proofs.Journal.Line
import CampusQuery.Proofs.Number.Closest
import CampusQuery.Proofs.Number.Error
import CampusQuery.Proofs.Number.Integer64
import CampusQuery.Proofs.Number.Precision
import CampusQuery.Proofs.Number.Whole
import CampusQuery.Proofs.Query.Catalog
import CampusQuery.Proofs.Query.Inference
import CampusQuery.Proofs.Query.Language
import CampusQuery.Proofs.Query.Meaning
import CampusQuery.Proofs.Query.Pattern
import CampusQuery.Proofs.Query.Plan
import CampusQuery.Proofs.Query.Reordering
import CampusQuery.Proofs.Query.Target
import CampusQuery.Proofs.Query.WellFormed
import CampusQuery.Proofs.Registry.Drafts
import CampusQuery.Proofs.Registry.FiniteMap
import CampusQuery.Proofs.Registry.History
import CampusQuery.Proofs.Text.Collation
