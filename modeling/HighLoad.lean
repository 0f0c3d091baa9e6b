import HighLoad.Lib.Radix
import HighLoad.Lib.Sha256
import HighLoad.Lib.SerialTable
import HighLoad.Base
import HighLoad.Dialogs.Sharding
import HighLoad.Dialogs.Cluster
import HighLoad.Dialogs.PgRepository
import HighLoad.Dialogs.Resharding
import HighLoad.Lib.Schedule
import HighLoad.Dialogs.Protocol
import HighLoad.Dialogs.CommandSpecs
import HighLoad.Dialogs.Log
import HighLoad.Dialogs.ReadYourWrites
import HighLoad.Dialogs.Phases
import HighLoad.Dialogs.Pipeline
import HighLoad.Dialogs.Rollback
import HighLoad.Dialogs.Guards
import HighLoad.Text
import HighLoad.Feed.Database
import HighLoad.Lib.Prog
import HighLoad.Lib.SortedSet
import HighLoad.Feed.Store
import HighLoad.Feed.Cache
import HighLoad.Feed.Routes
import HighLoad.Feed.CacheSpecs
import HighLoad.Feed.ReadSpecs
import HighLoad.Feed.HandlerSpecs
import HighLoad.Feed.Celebrity
import HighLoad.Dialogs.Config
import HighLoad.Dialogs.Layout
import HighLoad.Dialogs.Backfill
import HighLoad.Ws.ConnectionManager
import HighLoad.Ws.Bindings
import HighLoad.TextParse
import HighLoad.Ws.Routing
import HighLoad.Lib.Like
import HighLoad.Users.Search
import HighLoad.RabbitClient
import HighLoad.Lib.Paging
import HighLoad.Feed.Pagination
import HighLoad.Dialogs.Browsing
import HighLoad.Lib.Faults
import HighLoad.Feed.StreamWorker
import HighLoad.Lib.Rounding
import HighLoad.Timestamp
import HighLoad.Feed.SortKey
import HighLoad.Lib.TopN
import HighLoad.Feed.Window
import HighLoad.Feed.Sequential
import HighLoad.Feed.Refinement
import HighLoad.Feed.OneFault
import HighLoad.Feed.Merged
import HighLoad.Feed.Expiry
import HighLoad.Feed.Effects
import HighLoad.Feed.MissingKey
import HighLoad.Feed.Rabbit
import HighLoad.Feed.Complete
import HighLoad.Feed.Hybrid
import HighLoad.Feed.Streams
import HighLoad.Dialogs.Cli
import HighLoad.Dialogs.LateSends
import HighLoad.Lib.Interleave
import HighLoad.Feed.Interleavings
import HighLoad.Feed.Resurrection
import HighLoad.Feed.Unfriending
import HighLoad.Feed.Overwrite
import HighLoad.Ws.Delivery
import HighLoad.Dialogs.ReadSwitch
import HighLoad.Dialogs.Chain
import HighLoad.Feed.Materializer
import HighLoad.Users.Auth
import HighLoad.Ws.Sessions
import HighLoad.Lib.RoundRobin
import HighLoad.Replicas
import HighLoad.Dialogs.Routes
import HighLoad.Lib.Within
import HighLoad.Lib.Linearize
import HighLoad.Lib.Simulation
import HighLoad.Feed.Scores
import HighLoad.Feed.Concurrent
import HighLoad.Feed.Linearization
import HighLoad.Lib.Debts
import HighLoad.Feed.Bounded
import HighLoad.Json
import HighLoad.Ws.Wire
import HighLoad.Lib.Retry
import HighLoad.Feed.Retries
import HighLoad.Feed.Convergence
import HighLoad.Lib.Triple
import HighLoad.Lifespan
import HighLoad.Lib.Keeps
import HighLoad.Feed.Genuine
import HighLoad.Feed.Audience
