import GraphqlCore.Data.Dict
import GraphqlCore.Data.ReleaseForest
import GraphqlCore.Incremental.WorkQueue
import GraphqlCore.Incremental.Operations
import GraphqlCore.Incremental.Ledger
import GraphqlCore.Incremental.Stages
import GraphqlCore.Incremental.Invariant
import GraphqlCore.Incremental.Runs
import GraphqlCore.Incremental.Handlers
import GraphqlCore.Incremental.Reachability
import GraphqlCore.Incremental.Progress
import GraphqlCore.Incremental.Releases
import GraphqlCore.Incremental.Delivery
import GraphqlCore.Incremental.Causality
import GraphqlCore.Incremental.Publisher
import GraphqlCore.Incremental.Protocol
import GraphqlCore.Data.Text
import GraphqlCore.Data.Action
import GraphqlCore.Data.Settles
import GraphqlCore.Language.Ast
import GraphqlCore.Language.Equality
import GraphqlCore.Language.Lexer
import GraphqlCore.Language.BlockString
import GraphqlCore.Language.Parser
import GraphqlCore.Language.Printer
import GraphqlCore.Type.Definition
import GraphqlCore.Type.Schema
import GraphqlCore.Utilities.TypeComparators
import GraphqlCore.Type.Validate
import GraphqlCore.Type.Hierarchy
import GraphqlCore.Execution.Values
import GraphqlCore.Utilities.ReplaceVariables
import GraphqlCore.Utilities.CoerceInputValue
import GraphqlCore.Utilities.InputObjects
import GraphqlCore.Utilities.ValidateInputValue
import GraphqlCore.Utilities.InputAgreement
import GraphqlCore.Utilities.LiteralAgreement
import GraphqlCore.Execution.VariableValues
import GraphqlCore.Execution.ArgumentValues
import GraphqlCore.Execution.CollectFields
import GraphqlCore.Execution.Deferral
import GraphqlCore.Execution.CollectSpec
import GraphqlCore.Execution.Traversal
import GraphqlCore.Execution.DeferErasure
import GraphqlCore.Utilities.FindSchemaChanges
import GraphqlCore.Utilities.SchemaCompatibility
import GraphqlCore.Utilities.NoBreakingChanges
import GraphqlCore.Data.Attempt
import GraphqlCore.Execution.Executor
import GraphqlCore.Execution.ResponseShape
import GraphqlCore.Execution.Conformance
import GraphqlCore.Execution.Nesting
import GraphqlCore.Execution.Responses
import GraphqlCore.Utilities.SortValueNode
import GraphqlCore.Validation.ValidationContext
import GraphqlCore.Data.Flags
import GraphqlCore.Validation.OverlappingFieldsCanBeMerged
import GraphqlCore.Validation.MergeTermination
import GraphqlCore.Data.DictMerge
import GraphqlCore.Type.Directives
import GraphqlCore.Type.Introspection
import GraphqlCore.Language.StringTokens
import GraphqlCore.Language.PrintedStrings
import GraphqlCore.Language.SourceLines
import GraphqlCore.Language.BlockStringTokens
import GraphqlCore.Language.TokenReading
import GraphqlCore.Language.TokenChain
import GraphqlCore.Language.SourceLocation
import GraphqlCore.Language.BlockStringLines
import GraphqlCore.Language.BlockStringValues
import GraphqlCore.Language.PrintedBlockStrings
import GraphqlCore.Type.Scalars
import GraphqlCore.Validation.FragmentRules
import GraphqlCore.Validation.FragmentTotality
import GraphqlCore.Execution.DeferCoercion
import GraphqlCore.Validation.SubscriptionFields
import GraphqlCore.Language.TokenSpelling
import GraphqlCore.Utilities.StripIgnoredCharacters
import GraphqlCore.Validation.FieldsInSetCanMerge
import GraphqlCore.Validation.FieldMaps
import GraphqlCore.Validation.ComparedPairs
import GraphqlCore.Validation.MergeCompleteness
import GraphqlCore.Validation.RelatedFields
import GraphqlCore.Validation.MergeSoundness
import GraphqlCore.Validation.EnteredTypes
import GraphqlCore.Validation.MergeDecision
import GraphqlCore.Language.DocumentParser
import GraphqlCore.Language.ParserRuns
import GraphqlCore.Language.RegularParsers
import GraphqlCore.Language.TokenLimit
import GraphqlCore.Language.ConstValues
import GraphqlCore.Language.SchemaCoordinates
import GraphqlCore.Language.PrintLocation
import GraphqlCore.Language.Visitor
import GraphqlCore.Language.VisitorFrames
import GraphqlCore.Language.VisitorRewriting
import GraphqlCore.Language.ParallelVisitor
import GraphqlCore.Language.ParallelSkips
import GraphqlCore.Validation.FragmentCycles
import GraphqlCore.Utilities.TypeInfo
import GraphqlCore.Utilities.TypeTracking
import GraphqlCore.Data.ListHeap
import GraphqlCore.Validation.VariableUsages
import GraphqlCore.Type.HostValues
import GraphqlCore.Utilities.ValueToLiteral
import GraphqlCore.Utilities.LiteralRejection
import GraphqlCore.Utilities.LiteralMeaning
import GraphqlCore.Utilities.ValueFromAst
import GraphqlCore.Utilities.LiteralConverters
import GraphqlCore.Utilities.ConverterAgreement
import GraphqlCore.Language.SourceTrees
import GraphqlCore.Language.NodeTrees
import GraphqlCore.Language.ParsedItems
import GraphqlCore.Language.ParsedTrees
import GraphqlCore.Language.WrittenValues
import GraphqlCore.Language.ValueRoundTrip
import GraphqlCore.Utilities.SafeTypeChanges
import GraphqlCore.Validation.PossibleFragmentSpreads
import GraphqlCore.Data.RefSet
import GraphqlCore.Incremental.BuildExecutionPlan
import GraphqlCore.Data.CycleSearch
import GraphqlCore.Type.NonNullCircularRefs
import GraphqlCore.Type.DefaultValueCircularRefs
import GraphqlCore.Utilities.CoercionTermination
import GraphqlCore.Incremental.StreamItemQueue
import GraphqlCore.Incremental.StreamDelivery
import GraphqlCore.Execution.Implementations
import GraphqlCore.Data.Collecting
import GraphqlCore.Type.TypeCollection
import GraphqlCore.Type.ReachableTypes
import GraphqlCore.Utilities.SeparateOperations
import GraphqlCore.Language.NestedBlockStrings
import GraphqlCore.Data.LinearRel
import GraphqlCore.Data.StringAlignment
import GraphqlCore.Utilities.SuggestionList
import GraphqlCore.Utilities.LexicalDistance
import GraphqlCore.Utilities.Suggestions
import GraphqlCore.Utilities.NaturalOrder
import GraphqlCore.Data.Readable
import GraphqlCore.Language.ValueTexts
import GraphqlCore.Language.ParsedLiterals
import GraphqlCore.Utilities.SortedValues
import GraphqlCore.Utilities.DefaultValueAst
import GraphqlCore.Utilities.PrintSchema
import GraphqlCore.Utilities.LexicographicSortSchema
import GraphqlCore.Utilities.SortedSchemas
import GraphqlCore.Utilities.CanonicalSchemas
import GraphqlCore.Utilities.PrintedLiterals
import GraphqlCore.Language.TreeLexemes
import GraphqlCore.Language.WritableNodes
import GraphqlCore.Language.WrittenNodes
import GraphqlCore.Language.TakenTokens
import GraphqlCore.Language.TakenNodes
import GraphqlCore.Language.TakenDefinitions
import GraphqlCore.Language.TakenDocuments
import GraphqlCore.Language.ParsedNodes
import GraphqlCore.Language.DocumentRoundTrip
