import PriceEngine.Aggregates
import PriceEngine.BookingEviction
import PriceEngine.BookingsCreated
import PriceEngine.Calendar
import PriceEngine.CatalogueRuns
import PriceEngine.CatalogueSound
import PriceEngine.ChainMessages
import PriceEngine.ChannelIndependence
import PriceEngine.ChannelNetting
import PriceEngine.Checkpoints
import PriceEngine.Compaction
import PriceEngine.CompactionSound
import PriceEngine.CompanyPeriods
import PriceEngine.ComponentKinds
import PriceEngine.Components
import PriceEngine.ConfigRaces
import PriceEngine.Consumer
import PriceEngine.ConsumerSound
import PriceEngine.CostAggregation
import PriceEngine.CostBuckets
import PriceEngine.CostCatalogue
import PriceEngine.CostMigrations
import PriceEngine.CostSound
import PriceEngine.Cursors
import PriceEngine.Dashboard
import PriceEngine.Decision
import PriceEngine.DecisionDump
import PriceEngine.DecisionSink
import PriceEngine.DecisionSinkSound
import PriceEngine.DecisionSound
import PriceEngine.DeferredCosts
import PriceEngine.Dict
import PriceEngine.DynamoDb
import PriceEngine.EndToEnd
import PriceEngine.Engine
import PriceEngine.EngineSound
import PriceEngine.Eviction
import PriceEngine.Explanations
import PriceEngine.Grouping
import PriceEngine.Interleaving
import PriceEngine.IsoOrder
import PriceEngine.IsoText
import PriceEngine.JobTotals
import PriceEngine.KafkaBridge
import PriceEngine.KafkaBridgeSound
import PriceEngine.LakehouseRow
import PriceEngine.LakehouseSound
import PriceEngine.Layers
import PriceEngine.LedgerSound
import PriceEngine.LineOrder
import PriceEngine.ManualOverrides
import PriceEngine.MarketPulse
import PriceEngine.MarketTicks
import PriceEngine.Marts
import PriceEngine.MartsSound
import PriceEngine.MigratedRows
import PriceEngine.MinimumStay
import PriceEngine.Models
import PriceEngine.Monotonicity
import PriceEngine.Months
import PriceEngine.NettedLines
import PriceEngine.NettingBases
import PriceEngine.Occupancy
import PriceEngine.PastNights
import PriceEngine.PaymentLedger
import PriceEngine.PercentageCosts
import PriceEngine.Pipeline
import PriceEngine.PipelineSound
import PriceEngine.PublishBatch
import PriceEngine.Ranking
import PriceEngine.RealisedProfit
import PriceEngine.Recomputation
import PriceEngine.Registry
import PriceEngine.Replays
import PriceEngine.Reproducibility
import PriceEngine.Retention
import PriceEngine.RetriedWrites
import PriceEngine.Rounding
import PriceEngine.Run
import PriceEngine.SegmentSwitch
import PriceEngine.Shards
import PriceEngine.ShardsSound
import PriceEngine.Snapshots
import PriceEngine.StageB
import PriceEngine.StageBBounds
import PriceEngine.StageBSound
import PriceEngine.Stages
import PriceEngine.StrategyOrder
import PriceEngine.StrategyTable
import PriceEngine.StrategyVersions
import PriceEngine.Streaks
import PriceEngine.Totality
import PriceEngine.Upsert
import PriceEngine.Value
import PriceEngine.VersionedTable
import PriceEngine.Watchdog
