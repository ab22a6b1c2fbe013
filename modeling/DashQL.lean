import DashQL.Rope.Bulk
import DashQL.ScriptDiff.Moves
import DashQL.Notebook.Mirroring
import DashQL.Catalog.SchemaTables
import DashQL.Catalog.Forest
import DashQL.Storage.Records
import DashQL.Storage.Relocation
import DashQL.Compute.References
import DashQL.Compute.Scheduler
import DashQL.Utils.Semaphore
import DashQL.Logger.LogBuffer
import DashQL.Connection.Trino
import DashQL.Umap.FuzzyUnion
import DashQL.Native.StreamReferences
import DashQL.Native.DuckDBSessions
import DashQL.Native.DuckDBPending
import DashQL.Umap.RpForests
import DashQL.Connection.CatalogRefreshes
import DashQL.Native.StreamMessages
import DashQL.Agent.AgentRunOutcomes
import DashQL.Connection.HyperResultReads
import DashQL.Connection.QueryCaching
import DashQL.Storage.Answers
import DashQL.Signature.Agreement
import DashQL.Registry.Lookups
import DashQL.Storage.CacheEviction
import DashQL.Scripts.ReorderActions
import DashQL.Scripts.InsertedScripts
import DashQL.Scripts.ReplacedScripts
import DashQL.Storage.ArchivedNotebooks
import DashQL.Parser.SuffixReplay
import DashQL.Completion.TopCandidates
import DashQL.Connection.CatalogLoader
import DashQL.Connection.QueryDurations
import DashQL.Formatter.InlineFits
import DashQL.Parser.Descriptions
import DashQL.Parser.GrammarNodes
import DashQL.Parser.LogicalExpressions
import DashQL.Registry.SnippetGroups
import DashQL.Scanner.Literals
import DashQL.Scanner.SymbolSearch
import DashQL.Umap.NeighborHeap
import DashQL.Umap.SelfColumn
import DashQL.Utils.Base64
import DashQL.Utils.Decimal128
import DashQL.View.HyperPipelines
