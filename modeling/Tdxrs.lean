import Tdxrs.Library.TransitionSystem
import Tdxrs.Library.Framing
import Tdxrs.Library.LittleEndian
import Tdxrs.Error
import Tdxrs.Net.Packet
import Tdxrs.Net.Pool
import Tdxrs.Net.AsyncTask
import Tdxrs.Net.SyncClient
import Tdxrs.Library.Decimal
import Tdxrs.Library.Window
import Tdxrs.Protocol.Parsers
import Tdxrs.Library.Sweep
import Tdxrs.Protocol.Adjuster
import Tdxrs.Net.KLineRequest
import Tdxrs.Net.HqClient
import Tdxrs.Net.Paging
import Tdxrs.Net.Context
import Tdxrs.Library.Varint
import Tdxrs.Protocol.Encoding
import Tdxrs.Net.SliceServer
import Tdxrs.Net.PagedAdjust
import Tdxrs.Net.AuxiliaryFailure
import Tdxrs.Downloader.Formats
import Tdxrs.Downloader.Download
import Tdxrs.Downloader.Dates
import Tdxrs.Downloader.Files
import Tdxrs.Downloader.LastDate
import Tdxrs.Downloader.Runs
import Tdxrs.Downloader.FirstDownload
import Tdxrs.Downloader.Incremental
import Tdxrs.Net.AsyncClient
import Tdxrs.Downloader.Atomicity
import Tdxrs.Reader.DailyBar
import Tdxrs.Downloader.DayFile
import Tdxrs.Downloader.Checkpoint
import Tdxrs.Net.AsyncConnection
import Tdxrs.Net.ServerCache
import Tdxrs.Net.HqConnection
import Tdxrs.Library.Checked
import Tdxrs.Library.Records
import Tdxrs.Protocol.Fields
import Tdxrs.Protocol.PriceDecoding
import Tdxrs.Protocol.Codes
import Tdxrs.Protocol.Transactions
import Tdxrs.Protocol.MinuteData
import Tdxrs.Protocol.Quotes
import Tdxrs.Protocol.Reports
import Tdxrs.Protocol.BarFields
import Tdxrs.Protocol.ParserSafety
import Tdxrs.Library.BinaryFloat
import Tdxrs.Protocol.VolumeWord
import Tdxrs.Protocol.Truncation
import Tdxrs.Library.Program
import Tdxrs.Net.HqProgram
import Tdxrs.Net.SmartClient
import Tdxrs.Net.Attribution
import Tdxrs.Protocol.AdjustmentLaw
import Tdxrs.Protocol.RoundTrip
import Tdxrs.Net.RateLimiter
import Tdxrs.Net.QuoteBatches
import Tdxrs.Net.BarsCalls
import Tdxrs.Net.SecurityCaches
import Tdxrs.Library.Pieces
import Tdxrs.Reader.Block
import Tdxrs.Net.BlockFile
import Tdxrs.Library.Loop
import Tdxrs.Net.FinanceClient
import Tdxrs.Downloader.SyncRecord
import Tdxrs.Downloader.SyncRuns
import Tdxrs.Library.RecordWriting
import Tdxrs.Protocol.FieldEncoding
import Tdxrs.Protocol.TickRoundTrip
import Tdxrs.Library.WeightedMean
import Tdxrs.Protocol.MinuteRoundTrip
import Tdxrs.Protocol.XdXrRoundTrip
import Tdxrs.Protocol.QuoteRoundTrip
import Tdxrs.Net.BlacklistClock
import Tdxrs.Net.PoolCapacity
import Tdxrs.Net.SmartExec
import Tdxrs.Net.ConnectToAny
import Tdxrs.Net.Probing
import Tdxrs.Reader.Financial
import Tdxrs.Reader.BlockAreas
import Tdxrs.Reader.BlockGroups
import Tdxrs.Library.FirstSeen
import Tdxrs.Block.Query
import Tdxrs.Fund.FundList
import Tdxrs.Library.Gregorian
import Tdxrs.Net.Calendar
import Tdxrs.Protocol.ServerTime
import Tdxrs.Library.MapOrder
import Tdxrs.Profile.ParserF10
import Tdxrs.Profile.CompanyInfo
import Tdxrs.Library.RunningMean
import Tdxrs.Net.LatencyStats
import Tdxrs.Library.Pacing
import Tdxrs.Net.RateWaits
import Tdxrs.Downloader.ServerPool
import Tdxrs.Protocol.ReportRoundTrip
import Tdxrs.Net.Requests
import Tdxrs.Net.Service
import Tdxrs.Net.CacheRecords
import Tdxrs.Downloader.DayDownloads
import Tdxrs.Downloader.DayRuns
import Tdxrs.Net.ReportCache
import Tdxrs.Net.PagingFailures
import Tdxrs.Library.FixedRecords
import Tdxrs.Reader.MinBar
import Tdxrs.Profile.CompanyFiles
import Tdxrs.Net.DataCalls
import Tdxrs.Fund.FundClient
import Tdxrs.Net.DirectClient
import Tdxrs.Net.ClientsAgree
import Tdxrs.Block.BlockClient
import Tdxrs.Net.FactorTable
