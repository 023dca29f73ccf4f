import TradingBot.Decimal.Arithmetic
import TradingBot.Text
import TradingBot.Json.Reader
import TradingBot.Json.Printer
import TradingBot.Market
import TradingBot.Config.Codec
import TradingBot.Config.Basic
import TradingBot.Paper
import TradingBot.Http.Client
import TradingBot.Engine.Basic
import TradingBot.Program
import TradingBot.Alert.Webhook
import TradingBot.Registry
import TradingBot.Engine.Time
import TradingBot.Rehearsal
import TradingBot.Config.Directory
import TradingBot.Main
import TradingBot.Proofs.Moves
import TradingBot.Proofs.Schedule
import TradingBot.Proofs.Trace
import TradingBot.Proofs.CallTrace
import TradingBot.Proofs.Lifecycle
import TradingBot.Proofs.Fairness
import TradingBot.Proofs.FatalAlert
import TradingBot.Proofs.Stopping
import TradingBot.Proofs.Deadlines
import TradingBot.Proofs.Pauses
import TradingBot.Proofs.Frames
import TradingBot.Proofs.Desk
import TradingBot.Proofs.OpenOrders
import TradingBot.Proofs.DecimalRange
import TradingBot.Proofs.PaperCrashes
import TradingBot.Proofs.Score
import TradingBot.Proofs.Blips
import TradingBot.Proofs.Validity
import TradingBot.Proofs.Plan
import TradingBot.Proofs.Assembly
import TradingBot.Proofs.StartUp
import TradingBot.Proofs.InertSettings
import TradingBot.Proofs.Guarantee
import TradingBot.Proofs.Contract
import TradingBot.Proofs.Requests
import TradingBot.Proofs.Watching
import TradingBot.Proofs.SteadyRuns
import TradingBot.Proofs.SeededRuns
import TradingBot.Proofs.FeedRuns
import TradingBot.Proofs.DecimalText
import TradingBot.Proofs.Records
import TradingBot.Proofs.Rewriting
import TradingBot.Proofs.RoundTrips
import TradingBot.Proofs.Verdicts
import TradingBot.Proofs.Twins
import TradingBot.Proofs.Sessions
import TradingBot.Proofs.Retries
import TradingBot.Proofs.Commands
import TradingBot.Proofs.FirstViolation
import TradingBot.Proofs.DecimalRounding
import TradingBot.Proofs.Quotes
import TradingBot.Proofs.Tickers
import TradingBot.Proofs.BalanceReports
import TradingBot.Proofs.Amounts
import TradingBot.Proofs.Addresses
import TradingBot.Proofs.Delivery
import TradingBot.Proofs.FeedAccounts
import TradingBot.Proofs.FeedDriven
import TradingBot.Proofs.Placing
import TradingBot.Proofs.TiedFunds
import TradingBot.Proofs.Answers
import TradingBot.Proofs.Seeding
import TradingBot.Proofs.MirroredBooks
import TradingBot.Proofs.Tradable
import TradingBot.Proofs.Interference
import TradingBot.Proofs.LastPrices
import TradingBot.Proofs.Directories
