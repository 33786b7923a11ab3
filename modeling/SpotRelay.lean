import SpotRelay.Library.SlotTable
import SpotRelay.Library.Run
import SpotRelay.Library.FuelLoop
import SpotRelay.Library.RunningTotal
import SpotRelay.Library.Tolerance
import SpotRelay.Library.AverageCost
import SpotRelay.Library.Retry
import SpotRelay.Library.Directory
import SpotRelay.Library.WordBits
import SpotRelay.Library.OrderedMap
import SpotRelay.Library.MapWrites
import SpotRelay.Library.InsertionMap
import SpotRelay.Library.FlagHolder
import SpotRelay.Library.SerialNumber
import SpotRelay.Library.LotRounding
import SpotRelay.Library.DecimalText
import SpotRelay.Library.MarkerSearch
import SpotRelay.Library.JsonString
import SpotRelay.Library.JsonSegments
import SpotRelay.Library.JsonText
import SpotRelay.Library.FlatJson
import SpotRelay.Library.CharArray
import SpotRelay.Library.BoundedQueue
import SpotRelay.Library.KeyedList
import SpotRelay.Model.Types
import SpotRelay.Model.Quotes
import SpotRelay.Model.PriceCache
import SpotRelay.Model.Clients
import SpotRelay.Model.PositionTracker
import SpotRelay.Model.TrackerThreads
import SpotRelay.Model.SlotTracker
import SpotRelay.Model.Split
import SpotRelay.Model.EntryLoop
import SpotRelay.Model.ExitLoop
import SpotRelay.Model.RestClient
import SpotRelay.Model.TradeSocket
import SpotRelay.Model.PositionFile
import SpotRelay.Model.PositionDoubles
import SpotRelay.Model.AtomicBitset
import SpotRelay.Model.EntrySelection
import SpotRelay.Model.Engine
import SpotRelay.Model.LoopSlots
import SpotRelay.Model.Bot
import SpotRelay.Model.System
import SpotRelay.Model.PriceThreads
import SpotRelay.Model.BithumbMessages
import SpotRelay.Model.BithumbFeed
import SpotRelay.Model.BybitTicker
import SpotRelay.Model.UpbitGzip
import SpotRelay.Model.UpbitOrders
import SpotRelay.Model.CoverOrders
import SpotRelay.Model.FillCache
import SpotRelay.Model.WebSocketClient
import SpotRelay.Model.WriteQueue
import SpotRelay.Model.PendingOrders
import SpotRelay.Model.LifecycleExecutor
import SpotRelay.Model.FillQueries
import SpotRelay.Model.TransferRoutes
import SpotRelay.Model.TransferRefresh
import SpotRelay.Model.SpotRelayScanner
import SpotRelay.Model.SpotRelayLive
import SpotRelay.Model.SpotRelayMath
import SpotRelay.Model.Monitor
import SpotRelay.Model.ExitSignals
import SpotRelay.Model.EntryEvaluation
import SpotRelay.Model.ExternalPositions
import SpotRelay.Model.RingBuffer
import SpotRelay.Model.SpscRingBuffer
import SpotRelay.Model.LatencyProbe
import SpotRelay.Model.ConnectionPool
import SpotRelay.Model.WsBroadcastServer
import SpotRelay.Model.SymbolFormats
import SpotRelay.Model.Base64
import SpotRelay.Model.CapitalTracker
import SpotRelay.Model.RecoveryScan
import SpotRelay.Model.FeedSubscriptions
import SpotRelay.Interface.HedgeAccount
import SpotRelay.Interface.TruthfulVenue
import SpotRelay.Interface.MirroredBook
import SpotRelay.Interface.BithumbDepth
import SpotRelay.Interface.BybitOrderbook
import SpotRelay.Interface.InflateContract
import SpotRelay.Interface.OrderLife
import SpotRelay.Interface.IndexSet
import SpotRelay.Analysis.ClientOrders
import SpotRelay.Analysis.SplitFlows
import SpotRelay.Analysis.LoopFrames
import SpotRelay.Analysis.HedgeDrift
import SpotRelay.Analysis.ExitDrift
import SpotRelay.Analysis.CashConservation
import SpotRelay.Analysis.StopSnapshot
import SpotRelay.Analysis.RecordAgreement
import SpotRelay.Analysis.PostOnce
import SpotRelay.Analysis.CallOnce
import SpotRelay.Analysis.FillResolution
import SpotRelay.Analysis.RecoveryFile
import SpotRelay.Analysis.PositionRoundTrip
import SpotRelay.Analysis.PositionOwners
import SpotRelay.Analysis.EntryQuotes
import SpotRelay.Analysis.PositionCap
import SpotRelay.Analysis.EngineInvariant
import SpotRelay.Analysis.EntryFlags
import SpotRelay.Analysis.EntryScan
import SpotRelay.Analysis.SignalFreshness
import SpotRelay.Analysis.GateAgreement
import SpotRelay.Analysis.SystemSteps
import SpotRelay.Analysis.LoopPerSymbol
import SpotRelay.Analysis.SlotLeak
import SpotRelay.Analysis.CriticalStop
import SpotRelay.Analysis.SlotFlag
import SpotRelay.Analysis.TrackerSlots
import SpotRelay.Analysis.SignalEpisodes
import SpotRelay.Analysis.FreshSignalBound
import SpotRelay.Analysis.PriceFields
import SpotRelay.Analysis.FeedFrames
import SpotRelay.Analysis.QuotedValues
import SpotRelay.Analysis.BboConsistency
import SpotRelay.Analysis.BboFreshness
import SpotRelay.Analysis.DepthEffect
import SpotRelay.Analysis.DepthReading
import SpotRelay.Analysis.DepthAgreement
import SpotRelay.Analysis.TickerAgreement
import SpotRelay.Analysis.GzipFrames
import SpotRelay.Analysis.ParseErrors
import SpotRelay.Analysis.BookMirror
import SpotRelay.Analysis.LiveBooks
import SpotRelay.Analysis.FinalFill
import SpotRelay.Analysis.SessionLoss
import SpotRelay.Analysis.WriterHandOff
import SpotRelay.Analysis.PendingPromises
import SpotRelay.Analysis.TaskHandOver
import SpotRelay.Analysis.QueueTickets
import SpotRelay.Analysis.QueueDelivery
import SpotRelay.Analysis.TransferRoutes
import SpotRelay.Analysis.ScannerNetworks
import SpotRelay.Analysis.RelayCalculators
import SpotRelay.Analysis.BatchPremiums
import SpotRelay.Analysis.MonitorAgreement
import SpotRelay.Analysis.EntryFees
import SpotRelay.Analysis.ExternalPositions
import SpotRelay.Analysis.TrackerMap
import SpotRelay.Analysis.PoolSteps
import SpotRelay.Analysis.PoolBound
import SpotRelay.Analysis.GuardOwnership
import SpotRelay.Analysis.GateFillability
import SpotRelay.Analysis.CandidateSelection
import SpotRelay.Analysis.ExitSizing
import SpotRelay.Analysis.RollbackNeutrality
import SpotRelay.Analysis.ExitProfit
import SpotRelay.Analysis.ExitDivisions
import SpotRelay.Analysis.AmountTexts
import SpotRelay.Analysis.CoverSizing
import SpotRelay.Analysis.ShortSizing
import SpotRelay.Analysis.BestPair
import SpotRelay.Analysis.UsdtFilter
import SpotRelay.Analysis.PendingCount
import SpotRelay.Analysis.BitsetIndices
import SpotRelay.Analysis.MarketCodes
import SpotRelay.Analysis.Base64RoundTrip
import SpotRelay.Analysis.SpscFifo
import SpotRelay.Analysis.QueueCalls
import SpotRelay.Analysis.ProbeOwners
import SpotRelay.Analysis.ProbeSlots
import SpotRelay.Analysis.ProbeOverflow
import SpotRelay.Analysis.ProbeDelivery
import SpotRelay.Analysis.LatencySummary
import SpotRelay.Analysis.RouteRefresh
import SpotRelay.Analysis.SignalRoutes
import SpotRelay.Analysis.BlockedSymbols
import SpotRelay.Analysis.FillForkJoin
import SpotRelay.Analysis.FillProgress
import SpotRelay.Analysis.BroadcastSessions
import SpotRelay.Analysis.ExitPasses
import SpotRelay.Analysis.CapitalLedger
import SpotRelay.Analysis.RecoveryOffers
import SpotRelay.Analysis.RecoveredLoops
import SpotRelay.Analysis.Resubscription
import SpotRelay.Analysis.ThreadSteps
import SpotRelay.Library.BinaryFloat
import SpotRelay.Model.EntryDoubles
import SpotRelay.Analysis.ShortMinimum
