import Loglib.Basic.Bytes
import Loglib.Basic.Interner
import Loglib.Basic.SortedMap
import Loglib.Basic.SortedView
import Loglib.Basic.Utf16Text
import Loglib.Basic.Utf8Text
import Loglib.Basic.Base64
import Loglib.Basic.IndentedJson
import Loglib.Basic.KeyedList
import Loglib.Basic.DecimalText
import Loglib.Basic.EvenBuckets
import Loglib.Basic.QuotedText
import Loglib.Basic.Runs
import Loglib.Basic.LastItems
import Loglib.Basic.SeparatedLines
import Loglib.Basic.PackedBits
import Loglib.Order.ThreeWay
import Loglib.Order.IndexSort
import Loglib.Order.GappedSearch
import Loglib.Numeric.Binary64
import Loglib.Numeric.CivilDate
import Loglib.Numeric.CivilDays
import Loglib.Table.KeyIndex
import Loglib.Basic.DataStream
import Loglib.Table.KeyInterning
import Loglib.Table.EnumDictionary
import Loglib.Table.EnumDictionaryRegistry
import Loglib.Table.RegistryRuns
import Loglib.Table.LogValue
import Loglib.Table.LineSource
import Loglib.Table.LogLine
import Loglib.Table.LogData
import Loglib.Table.LogLevel
import Loglib.Table.LogConfiguration
import Loglib.Table.ColumnLayout
import Loglib.Table.EnumTracking
import Loglib.Table.LogTable
import Loglib.Table.TimeBackfill
import Loglib.Table.TimestampFormats
import Loglib.Table.EnumEncoding
import Loglib.Table.AutoDetection
import Loglib.Table.EnumSteps
import Loglib.Table.Operations
import Loglib.Table.Eviction
import Loglib.Table.TableFrames
import Loglib.Table.KeyIds
import Loglib.Table.SourceGrowth
import Loglib.Table.ValueRetention
import Loglib.Table.RetainingSteps
import Loglib.Table.RetainingBatches
import Loglib.Table.ValueRuns
import Loglib.Compare.EnumDictRank
import Loglib.Compare.CompareRows
import Loglib.Compare.SortPermutation
import Loglib.Filter.RowBitset
import Loglib.Filter.RowPredicate
import Loglib.Filter.EnumMeaning
import Loglib.Filter.FilterExpression
import Loglib.Table.PreviewAppend
import Loglib.Pipeline.LineBytesQueue
import Loglib.Files.RotationPartition
import Loglib.Files.RotationNames
import Loglib.Files.RotationPrimary
import Loglib.Pipeline.BatchCoalescer
import Loglib.Pipeline.ContinuationSplice
import Loglib.Pipeline.StaticPipeline
import Loglib.Pipeline.LineTable
import Loglib.Pipeline.StreamingLoop
import Loglib.Pipeline.StdinQueue
import Loglib.Pipeline.UdpDatagrams
import Loglib.Pipeline.TcpSessions
import Loglib.Pipeline.PromotionHistory
import Loglib.Pipeline.KeyReports
import Loglib.Pipeline.NewKeys
import Loglib.Pipeline.StreamedKeys
import Loglib.Pipeline.ChunkIndependence
import Loglib.Pipeline.ProducerClose
import Loglib.Pipeline.FieldTexts
import Loglib.Pipeline.ContinuationRuns
import Loglib.Tailing.Disk
import Loglib.Tailing.TailingBytesProducer
import Loglib.Tailing.WholeLines
import Loglib.Tailing.Prefill
import Loglib.Tailing.PrefillExact
import Loglib.App.LevelColumnCache
import Loglib.App.StreamedLayout
import Loglib.App.EnumColumnSignals
import Loglib.App.LevelDemotion
import Loglib.App.DemotedFilters
import Loglib.App.DemotingCalls
import Loglib.App.ModelRows
import Loglib.App.RetainedRuns
import Loglib.App.SinkDelivery
import Loglib.App.BatchHandoff
import Loglib.App.FilterProxyRuns
import Loglib.App.LeafRuleCompile
import Loglib.App.SimpleFilters
import Loglib.App.AdvancedFilter
import Loglib.App.LogStringMatcher
import Loglib.App.HighlightRuleSet
import Loglib.App.HistogramEvents
import Loglib.App.OverviewRailModel
import Loglib.App.OverviewRailBuckets
import Loglib.App.OverviewRailRuns
import Loglib.App.HistogramCounts
import Loglib.App.HistogramBudget
import Loglib.App.NoteSanitiser
import Loglib.App.AnchorReload
import Loglib.App.AnchorsDock
import Loglib.App.LaunchForwarding
import Loglib.App.ExportSink
import Loglib.App.RowExporter
import Loglib.App.UserDocuments
import Loglib.App.DocumentCollisions
import Loglib.App.WorkspaceFile
import Loglib.App.WorkspaceRoundTrip
import Loglib.App.UuidUtils
import Loglib.App.WorkspacePublishing
import Loglib.App.PublishedWorkspaces
import Loglib.App.DeferredWindows
import Loglib.App.RecentSessions
import Loglib.App.RecentSessionsRuns
import Loglib.App.OpenQueue
import Loglib.App.OpenQueueRuns
import Loglib.Parsers.JsonHistory
import Loglib.Parsers.DetectionFinality
import Loglib.Parsers.RegexTemplates
import Loglib.Parsers.TemplateProbes
import Loglib.Parsers.CsvColumns
import Loglib.Parsers.CsvLine
import Loglib.Parsers.BareScalars
import Loglib.Parsers.LogfmtLine
import Loglib.Parsers.LogfmtRoundTrip
import Loglib.Query.IsoTimestamp
import Loglib.Query.IsoLiterals
import Loglib.Query.IsoRoundTrip
import Loglib.Query.QueryLexer
import Loglib.Query.QueryParser
import Loglib.Query.QueryTotal
import Loglib.Query.TokenLaws
import Loglib.Query.TimeRanges
import Loglib.Query.FormatExpression
import Loglib.Query.NormalTrees
import Loglib.Query.PrintedTokens
import Loglib.Query.PrintedLeaves
import Loglib.Query.PrintedQueries
import Loglib.Basic.TableText
import Loglib.App.TabularExport
import Loglib.Parsers.InsertSorted
import Loglib.App.ColumnMoves
import Loglib.Query.LogTimestamps
import Loglib.App.RowOrderProxyModel
import Loglib.App.ParseErrorBatches
import Loglib.App.ParseErrorsDock
import Loglib.App.ParseErrorsRuns
import Loglib.App.FindRecords
import Loglib.App.FindSteps
import Loglib.App.GoToTimestamp
import Loglib.App.JumpToAnchor
import Loglib.App.FindRuns
import Loglib.Files.StreamDecoder
import Loglib.Files.DecompressingByteSource
import Loglib.Files.BundleHeader
import Loglib.Files.SessionBundle
import Loglib.Files.BundleAnchors
import Loglib.App.HistogramBrush
