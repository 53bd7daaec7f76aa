import NestedQuery.Dict
import NestedQuery.Engine.Assembly
import NestedQuery.Engine.Find
import NestedQuery.Engine.FollowUp
import NestedQuery.Engine.Load
import NestedQuery.Engine.Logging
import NestedQuery.Engine.Paging
import NestedQuery.Engine.Settings
import NestedQuery.Engine.Stages
import NestedQuery.Instant
import NestedQuery.Json.Basic
import NestedQuery.Json.Reader
import NestedQuery.Json.Shape
import NestedQuery.Json.Token
import NestedQuery.Json.Writer
import NestedQuery.Number.Binary64
import NestedQuery.Number.Decimal
import NestedQuery.Number.Width
import NestedQuery.Plan.Joins
import NestedQuery.Plan.Layout
import NestedQuery.Plan.Predicate
import NestedQuery.Plan.Shape
import NestedQuery.Plan.SortKeys
import NestedQuery.Proofs.AcceptedRelations
import NestedQuery.Proofs.Agreement
import NestedQuery.Proofs.BackwardPages
import NestedQuery.Proofs.BaseRecords
import NestedQuery.Proofs.BaseRows
import NestedQuery.Proofs.CatalogOrder
import NestedQuery.Proofs.ClauseReading
import NestedQuery.Proofs.ColumnOrders
import NestedQuery.Proofs.CompiledScope
import NestedQuery.Proofs.CursorOrders
import NestedQuery.Proofs.CursorPages
import NestedQuery.Proofs.CursorRuns
import NestedQuery.Proofs.DeclaredDistinct
import NestedQuery.Proofs.DeclaredKeys
import NestedQuery.Proofs.Dictionary
import NestedQuery.Proofs.DigitTexts
import NestedQuery.Proofs.DistinctRecords
import NestedQuery.Proofs.DistinctRelations
import NestedQuery.Proofs.DoubleRanks
import NestedQuery.Proofs.DoubleTexts
import NestedQuery.Proofs.EqualKeys
import NestedQuery.Proofs.Evaluation
import NestedQuery.Proofs.FetchOrders
import NestedQuery.Proofs.FilterMeaning
import NestedQuery.Proofs.FilterReading
import NestedQuery.Proofs.Folding
import NestedQuery.Proofs.FoundLengths
import NestedQuery.Proofs.FoundRecords
import NestedQuery.Proofs.IncludedAlone
import NestedQuery.Proofs.IncludedFilters
import NestedQuery.Proofs.InferredNames
import NestedQuery.Proofs.InferredRelations
import NestedQuery.Proofs.InstantTexts
import NestedQuery.Proofs.JoinedChoices
import NestedQuery.Proofs.JoinedFilters
import NestedQuery.Proofs.JoinedReading
import NestedQuery.Proofs.JoinedRecords
import NestedQuery.Proofs.JoinedRows
import NestedQuery.Proofs.JointKeys
import NestedQuery.Proofs.Labels
import NestedQuery.Proofs.LinkedRecords
import NestedQuery.Proofs.Loading
import NestedQuery.Proofs.Lowering
import NestedQuery.Proofs.Membership
import NestedQuery.Proofs.NamedColumns
import NestedQuery.Proofs.NamesApart
import NestedQuery.Proofs.NegatedFilters
import NestedQuery.Proofs.NestedRecords
import NestedQuery.Proofs.Nesting
import NestedQuery.Proofs.OutputNames
import NestedQuery.Proofs.Patterns
import NestedQuery.Proofs.PlanScope
import NestedQuery.Proofs.PlannedJoins
import NestedQuery.Proofs.PlannerRuns
import NestedQuery.Proofs.Planning
import NestedQuery.Proofs.Reachability
import NestedQuery.Proofs.RecordBlocks
import NestedQuery.Proofs.RecordIdentities
import NestedQuery.Proofs.RecordShape
import NestedQuery.Proofs.RecordWindows
import NestedQuery.Proofs.Refolding
import NestedQuery.Proofs.RelatedCounts
import NestedQuery.Proofs.RelatedScalars
import NestedQuery.Proofs.RelationOrders
import NestedQuery.Proofs.RelationPages
import NestedQuery.Proofs.RelationalJoins
import NestedQuery.Proofs.RepeatedTables
import NestedQuery.Proofs.RevisedPlans
import NestedQuery.Proofs.RoundedIntegers
import NestedQuery.Proofs.RowwiseJoins
import NestedQuery.Proofs.Safety
import NestedQuery.Proofs.SchemaRuns
import NestedQuery.Proofs.Scope
import NestedQuery.Proofs.Selection
import NestedQuery.Proofs.SeparableFilters
import NestedQuery.Proofs.SortOrder
import NestedQuery.Proofs.SortableRequests
import NestedQuery.Proofs.StableSort
import NestedQuery.Proofs.StatementCounts
import NestedQuery.Proofs.StatementReading
import NestedQuery.Proofs.StatementSigns
import NestedQuery.Proofs.StoredRows
import NestedQuery.Proofs.Strategies
import NestedQuery.Proofs.TextSearches
import NestedQuery.Proofs.TupleFolding
import NestedQuery.Proofs.UnorderedPlans
import NestedQuery.Proofs.ValueKeys
import NestedQuery.Proofs.VisibleNames
import NestedQuery.Proofs.Writings
import NestedQuery.Proofs.WrittenCatalogs
import NestedQuery.Proofs.WrittenDocuments
import NestedQuery.QueryError
import NestedQuery.Record
import NestedQuery.Request.Arguments
import NestedQuery.Request.Filter
import NestedQuery.Request.Reading
import NestedQuery.Request.Sorting
import NestedQuery.Schema.Basic
import NestedQuery.Schema.CatalogJson
import NestedQuery.Schema.Inference
import NestedQuery.Schema.Naming
import NestedQuery.Schema.Relation
import NestedQuery.Schema.Table
import NestedQuery.Statement.Basic
import NestedQuery.Statement.Evaluation
import NestedQuery.Statement.Like
import NestedQuery.Statement.Sorting
import NestedQuery.Statement.Text
import NestedQuery.Statement.Writer
import NestedQuery.Text.Blank
import NestedQuery.Text.CaseTable
import NestedQuery.Text.Lowercase
import NestedQuery.Value
