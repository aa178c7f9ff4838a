import MmEngine.Oms.Exposure
import MmEngine.Oms.Pending
import MmEngine.Oms.Requests
import MmEngine.Oms.Deferral
import MmEngine.Oms.Approval
import MmEngine.Oms.SlotExclusivity
import MmEngine.Oms.Identity
import MmEngine.Oms.AckOrder
import MmEngine.Oms.RefusedTransition
import MmEngine.Oms.ReturnedRequest
import MmEngine.Oms.Ownership
import MmEngine.Oms.Storage
import MmEngine.Oms.Terminal
import MmEngine.Oms.FilledQuantity
import MmEngine.Oms.Unknown
import MmEngine.Oms.RequestFailure
import MmEngine.Oms.Replacement
import MmEngine.Oms.Journal
import MmEngine.Oms.Restart
import MmEngine.Oms.CreationOrder
import MmEngine.Oms.AverageFillPrice
import MmEngine.Oms.Reconciliation
import MmEngine.Oms.ExactExposure
import MmEngine.Exchange.Paper.PaperExecution
import MmEngine.Exchange.Paper.Walk
import MmEngine.Exchange.Paper.VenueStep
import MmEngine.Exchange.Paper.Executions
import MmEngine.Exchange.Paper.MintedText
import MmEngine.Exchange.Paper.FillAccounting
import MmEngine.Exchange.Paper.Liquidity
import MmEngine.Exchange.Paper.Staleness
import MmEngine.Exchange.Paper.TradeNumbers
import MmEngine.Exchange.Paper.VenueIdentity
import MmEngine.Portfolio.Conservation
import MmEngine.Portfolio.Reference
import MmEngine.Portfolio.LostFill
import MmEngine.Portfolio.MarkAge
import MmEngine.Portfolio.RestartTransparency
import MmEngine.Portfolio.RestoredLedger
import MmEngine.Portfolio.Aggregation
import MmEngine.Risk.KillLatch
import MmEngine.Risk.Soundness
import MmEngine.Risk.Reduction
import MmEngine.Risk.Permission
import MmEngine.Risk.Shrinking
import MmEngine.Risk.ReduceOnly
import MmEngine.Risk.Derisking
import MmEngine.Risk.WrapAround
import MmEngine.Risk.Gate
import MmEngine.Lib.TokenBucket
import MmEngine.Risk.RateBound
import MmEngine.Quote.SlotSafety
import MmEngine.Quote.Watermark
import MmEngine.Quote.Convergence
import MmEngine.Quote.Withdrawal
import MmEngine.Strategy.Generations
import MmEngine.Book.PriceMap
import MmEngine.Book.SessionRuns
import MmEngine.Book.ChunkedImage
import MmEngine.Book.Chunking
import MmEngine.Lib.Passage
import MmEngine.Exchange.Paper.Scheduling
import MmEngine.Exchange.Paper.Waiting
import MmEngine.Exchange.Paper.Deliveries
import MmEngine.Exchange.Paper.Displayed
import MmEngine.Exchange.Paper.Capacity
import MmEngine.Exchange.Paper.Tradable
import MmEngine.Exchange.Paper.Rebase
import MmEngine.Exchange.Paper.PaperReplay
import MmEngine.Exchange.Paper.ReplayFidelity
import MmEngine.Lib.StableSort
import MmEngine.Exchange.Paper.Faultless
import MmEngine.Exchange.Paper.Mirror
import MmEngine.Exchange.Paper.Confirmation
import MmEngine.Exchange.Paper.PollTimes
import MmEngine.Exchange.Paper.OnePoll
import MmEngine.Exchange.Paper.PollSchedule
import MmEngine.Oms.ClientOrderIdText
import MmEngine.Common.DecimalFormat
import MmEngine.Exchange.Binance.DepthDecoding
import MmEngine.Common.Rounding
import MmEngine.Oms.RejectedCancel
import MmEngine.Portfolio.TradeRings
import MmEngine.Common.RingSafety
import MmEngine.Common.LatencyReport
import MmEngine.Common.PoolOwnership
import MmEngine.Common.SeqlockSafety
import MmEngine.Common.SeqlockProgress
import MmEngine.Exchange.Binance.FeedReaders
import MmEngine.Exchange.Paper.FillReports
import MmEngine.Exchange.Paper.OrderTerms
import MmEngine.Exchange.Paper.VenuePosition
import MmEngine.Oms.AdapterCalls
import MmEngine.Oms.Bookings
import MmEngine.Oms.NewRequests
import MmEngine.Pipeline.AccountingPipeline
import MmEngine.Pipeline.FillFlow
import MmEngine.Pipeline.LedgerPosition
import MmEngine.Pipeline.OmsBookings
import MmEngine.Pipeline.OrderFlow
import MmEngine.Pipeline.TradingPipeline
import MmEngine.Pipeline.RiskGate
