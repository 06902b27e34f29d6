import Columbo.Numeral
import Columbo.Scan
import Columbo.Bytes
import Columbo.LineHandler
import Columbo.LineReading
import Columbo.EventStreamParser
import Columbo.EventText
import Columbo.HostEventRoundTrip
import Columbo.AddressText
import Columbo.Lines
import Columbo.NetworkEventRoundTrip
import Columbo.ReaderBuffer
import Columbo.ReaderInvariant
import Columbo.ReaderDelivery
import Columbo.Forest
import Columbo.Tracer
import Columbo.TracerSteps
import Columbo.TracerExport
import Columbo.TracerCoherence
import Columbo.Coroutine
import Columbo.TracerReparent
import Columbo.Span
import Columbo.Spanner
import Columbo.SpannerSteps
import Columbo.HostCallPartition
import Columbo.HostSpanner
import Columbo.NetworkSpanner
import Columbo.NicSpanner
import Columbo.SpannerSystem
import Columbo.Refinement
import Columbo.FifoQueue
import Columbo.CoroChannel
import Columbo.ChannelRefinement
import Columbo.EventFilter
import Columbo.PendingSpans
import Columbo.RejectedEvents
import Columbo.SpannerRuns
import Columbo.FinishedSpans
import Columbo.PacketChains
import Columbo.Interleaving
import Columbo.NicDmaReconstruction
import Columbo.ReceiveContexts
import Columbo.HostMmio
import Columbo.TracerTraces
import Columbo.Occurrence
import Columbo.SubstringSearch
import Columbo.NumberParsing
import Columbo.PrintedHistory
import Columbo.EventEquality
import Columbo.Acceptor
import Columbo.SpanWords
import Columbo.NetDeviceRuns
import Columbo.NetDeviceSummary
import Columbo.SpanShapes
import Columbo.SpanRejections
import Columbo.Pipeline
import Columbo.PipelineRuns
import Columbo.PipelineTermination
import Columbo.PipelineSpecialization
import Columbo.Duties
import Columbo.ContextDuties
import Columbo.HostContexts
import Columbo.NicContexts
import Columbo.ContextMatching
import Columbo.SortedMap
import Columbo.SymsFilter
import Columbo.NearestSymbol
import Columbo.RingBuffer
import Columbo.TimestampBounds
import Columbo.LineLocality
import Columbo.ExportedAttributes
import Columbo.AttributeFields
import Columbo.AddressGrammar
import Columbo.LogParser
import Columbo.TextShape
import Columbo.LinePieces
import Columbo.NicBmParser
import Columbo.NicBmLines
import Columbo.Gem5Parser
import Columbo.Gem5Lines
import Columbo.NS3Parser
import Columbo.NS3Lines
import Columbo.ChannelDisplay
import Columbo.CursorDiscipline
import Columbo.TextColumns
import Columbo.SymsColumns
import Columbo.SymsLoading
import Columbo.SymsDump
import Columbo.Monitor
import Columbo.BlockingChannels
import Columbo.SpannerUses
import Columbo.SystemTracing
import Columbo.ScanPrograms
import Columbo.ParserLocality
import Columbo.RunSimulation
import Columbo.EventProvider
import Columbo.ProviderRuns
import Columbo.EventFilters
import Columbo.TraceProgram
import Columbo.TraceProgramRuns
import Columbo.SpanContents
import Columbo.PlacedEvents
import Columbo.EventAccounts
import Columbo.ParsedEvents
import Columbo.TracedTransactions
import Columbo.ReplayedEvents
import Columbo.OtlpExport
import Columbo.ExportedForest
import Columbo.ExportingSystem
