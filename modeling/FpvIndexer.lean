import FpvIndexer.Relational.Table
import FpvIndexer.Relational.Query
import FpvIndexer.Relational.Window
import FpvIndexer.Relational.Numeric
import FpvIndexer.Relational.Lifespan
import FpvIndexer.Relational.Fallible
import FpvIndexer.Relational.Scan
import FpvIndexer.Relational.LastWriter
import FpvIndexer.Relational.Tenure
import FpvIndexer.Relational.Refresh
import FpvIndexer.EcmaScript.Number
import FpvIndexer.EcmaScript.Text
import FpvIndexer.Position
import FpvIndexer.Quarter
import FpvIndexer.Database.Schema
import FpvIndexer.Database.PricePeriods
import FpvIndexer.Database.Store
import FpvIndexer.Lib.Utils
import FpvIndexer.Services.TokenInfo
import FpvIndexer.Indexers.ServiceRewardsActor
import FpvIndexer.Indexers.FilecoinPayV1
import FpvIndexer.Indexers.AuctionableToken
import FpvIndexer.Indexers.Indexing
import FpvIndexer.Indexers.StreamWeightActor
import FpvIndexer.Indexers.AbstractIndexer
import FpvIndexer.Services.Quarters
import FpvIndexer.Lib.QuarterNumber
import FpvIndexer.Services.VolumeCalculation
import FpvIndexer.Services.Payments
import FpvIndexer.Services.IndexerOrchestrator
import FpvIndexer.Services.Execution
import FpvIndexer.Services.GateCheck
import FpvIndexer.Services.IndexerStatus
import FpvIndexer.Services.Postings
import FpvIndexer.Services.ServiceOrchestrators
import FpvIndexer.Proof.Handlers
import FpvIndexer.Proof.FeeAuctions
import FpvIndexer.Proof.Intervals
import FpvIndexer.Proof.Bindings
import FpvIndexer.Proof.Volume
import FpvIndexer.Proof.FilPricing
import FpvIndexer.Proof.AdmittedVolume
import FpvIndexer.Proof.Attribution
import FpvIndexer.Proof.Effects
import FpvIndexer.Proof.Ingestion
import FpvIndexer.Proof.Lists
import FpvIndexer.Proof.Reachable
import FpvIndexer.Proof.Storage
import FpvIndexer.Proof.PriceBand
import FpvIndexer.Proof.MinLot
import FpvIndexer.Proof.AppendOnly
import FpvIndexer.Proof.PaymentsList
import FpvIndexer.Proof.InForce
import FpvIndexer.Proof.OneRow
import FpvIndexer.Proof.Agreement
import FpvIndexer.Proof.Rollover
import FpvIndexer.Proof.AsOf
import FpvIndexer.Proof.VolumeAsOf
import FpvIndexer.Proof.ClosedQuarters
import FpvIndexer.Proof.Freshness
import FpvIndexer.Proof.Cleanup
import FpvIndexer.Proof.ConcurrentRefresh
import FpvIndexer.Proof.Cursor
import FpvIndexer.Proof.Replay
import FpvIndexer.Proof.Runs
import FpvIndexer.Proof.Commits
import FpvIndexer.Proof.Schedules
import FpvIndexer.Proof.Removals
import FpvIndexer.Proof.MissedAuctions
import FpvIndexer.Proof.Owners
import FpvIndexer.Proof.BackCover
import FpvIndexer.Proof.PreviousCount
import FpvIndexer.Proof.PositiveClaims
import FpvIndexer.Proof.ListUpdates
import FpvIndexer.Proof.PricingIntervals
import FpvIndexer.Proof.Flooring
import FpvIndexer.Proof.WholeAmounts
import FpvIndexer.Proof.Paging
import FpvIndexer.Proof.SingleFlight
import FpvIndexer.Proof.CatchUp
import FpvIndexer.Proof.SeedMedian
import FpvIndexer.Proof.QuarterNumbers
import FpvIndexer.Proof.QuarterTiling
import FpvIndexer.Proof.GateTargets
import FpvIndexer.Proof.WholeCalls
import FpvIndexer.Proof.Confluence
import FpvIndexer.Proof.Statuses
import FpvIndexer.Proof.Postings
import FpvIndexer.Proof.Tenancy
import FpvIndexer.Proof.Rosters
import FpvIndexer.Proof.Credits
import FpvIndexer.Proof.Admissions
import FpvIndexer.Proof.Announcements
