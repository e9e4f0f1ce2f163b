import EdgeCache.Lib.Scan
import EdgeCache.Lib.Transition
import EdgeCache.Lib.Recency
import EdgeCache.Lib.Utf8
import EdgeCache.Lib.Json
import EdgeCache.Bytes
import EdgeCache.Http
import EdgeCache.RequestParser
import EdgeCache.Framing
import EdgeCache.PipelinedParsing
import EdgeCache.CacheEntry
import EdgeCache.CacheKey
import EdgeCache.LRUCache
import EdgeCache.ShardedCache
import EdgeCache.CachePolicy
import EdgeCache.RedisL2Cache
import EdgeCache.CircuitBreaker
import EdgeCache.OriginClient
import EdgeCache.Forwarding
import EdgeCache.RequestHandler
import EdgeCache.Moves
import EdgeCache.Registry
import EdgeCache.Discipline
import EdgeCache.Flow
import EdgeCache.Provenance
import EdgeCache.Sharing
import EdgeCache.Purging
import EdgeCache.Lifetimes
import EdgeCache.Poisoning
import EdgeCache.CacheRuns
import EdgeCache.CacheRecency
import EdgeCache.RequestPurge
import EdgeCache.PatternMatchers
import EdgeCache.Resp
import EdgeCache.RedisConnection
import EdgeCache.SubscriberLoop
import EdgeCache.L2Connection
import EdgeCache.ControlPlane
import EdgeCache.FleetPurge
import EdgeCache.Stampede
import EdgeCache.GuardedCalls
import EdgeCache.StoredObjects
import EdgeCache.ByteBudget
import EdgeCache.OriginResponse
import EdgeCache.NoStore
import EdgeCache.OriginFetch
import EdgeCache.ResponseHeaders
import EdgeCache.RuleMirror
import EdgeCache.RuleWriters
import EdgeCache.RuleStore
import EdgeCache.RuleText
import EdgeCache.RuleReloads
import EdgeCache.OversizedPut
import EdgeCache.Sweeping
import EdgeCache.Sharding
import EdgeCache.HostileBlobs
import EdgeCache.RespStream
import EdgeCache.AgeHeaders
import EdgeCache.Threads
import EdgeCache.CachedAnswers
import EdgeCache.Failures
import EdgeCache.EventLoop
import EdgeCache.Arrival
import EdgeCache.UpstreamHeaders
import EdgeCache.L2Purge
import EdgeCache.RulePolling
import EdgeCache.Subscribing
import EdgeCache.AccessLog
import EdgeCache.Lib.Async
import EdgeCache.RequestBodies
import EdgeCache.Api
import EdgeCache.RejectedCalls
import EdgeCache.RuleUpdates
import EdgeCache.StatsTotals
import EdgeCache.DirectiveScan
import EdgeCache.Lib.Weight
import EdgeCache.Census
import EdgeCache.Completion
import EdgeCache.Metrics
import EdgeCache.Lib.Services
import EdgeCache.ApiServer
import EdgeCache.Lib.Keyed
import EdgeCache.Rollup
import EdgeCache.RollupBalance
import EdgeCache.RollupEvents
import EdgeCache.RollupStats
import EdgeCache.RollupPoison
import EdgeCache.OriginLoad
import EdgeCache.StreamAnswers
import EdgeCache.Worker
