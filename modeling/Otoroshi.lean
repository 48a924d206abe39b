import Otoroshi.Foundation.Text
import Otoroshi.Foundation.Long
import Otoroshi.Foundation.Pattern
import Otoroshi.Foundation.Trie
import Otoroshi.Foundation.Maps
import Otoroshi.Foundation.Json
import Otoroshi.Foundation.Stateful
import Otoroshi.Foundation.Run
import Otoroshi.Foundation.Walk
import Otoroshi.Foundation.Scan
import Otoroshi.Foundation.Calendar
import Otoroshi.Foundation.Admission
import Otoroshi.Foundation.Marks
import Otoroshi.Foundation.Utf8
import Otoroshi.Foundation.Frames
import Otoroshi.Utils.RegexPool
import Otoroshi.Utils.Placeholders
import Otoroshi.Router.Model
import Otoroshi.Router.Search
import Otoroshi.Router.Table
import Otoroshi.Router.Runtime
import Otoroshi.Router.History
import Otoroshi.Router.Literal
import Otoroshi.Router.Soundness
import Otoroshi.Router.Merge
import Otoroshi.Router.Narrowing
import Otoroshi.Router.PathParams
import Otoroshi.Router.Completeness
import Otoroshi.Network.IpAddress
import Otoroshi.Network.ClientAddress
import Otoroshi.Storage.Memory
import Otoroshi.Storage.InMemoryRedis
import Otoroshi.Storage.Writes
import Otoroshi.Storage.Expiration
import Otoroshi.Storage.Agreement
import Otoroshi.Storage.Swap
import Otoroshi.Storage.NdJson
import Otoroshi.Storage.Entries
import Otoroshi.Storage.Imports
import Otoroshi.Storage.Restore
import Otoroshi.Storage.Counters
import Otoroshi.Storage.ExpiringCounters
import Otoroshi.Apikeys.KeyRotation
import Otoroshi.Apikeys.AnnouncedSecret
import Otoroshi.Apikeys.Constraints
import Otoroshi.Apikeys.Authorizations
import Otoroshi.Apikeys.Quotas
import Otoroshi.Apikeys.Lookup
import Otoroshi.Apikeys.Extraction
import Otoroshi.Apikeys.Validation
import Otoroshi.Apikeys.Calls
import Otoroshi.Apikeys.Wiping
import Otoroshi.Throttling.Quota
import Otoroshi.Throttling.Strategies
import Otoroshi.Throttling.InFlight
import Otoroshi.Throttling.CalendarDay
import Otoroshi.Throttling.RateLimiter
import Otoroshi.Gateway.Targets
import Otoroshi.Gateway.LoadBalancing
import Otoroshi.Gateway.CircuitBreakers
import Otoroshi.Gateway.Isolation
import Otoroshi.Proxy.Backends
import Otoroshi.Proxy.Hooks
import Otoroshi.Foundation.Bucket
import Otoroshi.Throttling.TokenRate
import Otoroshi.Foundation.Double
import Otoroshi.Throttling.LuaScript
import Otoroshi.Throttling.ScriptRuns
import Otoroshi.Foundation.Sorting
import Otoroshi.Plugins.Slots
import Otoroshi.Plugins.Transformers
import Otoroshi.Plugins.Phases
import Otoroshi.Foundation.Base64
import Otoroshi.Foundation.Parsing
import Otoroshi.Signatures.StructuredFields
import Otoroshi.Signatures.Codec
import Otoroshi.Signatures.Base
import Otoroshi.Signatures.RoundTrip
import Otoroshi.Foundation.Lines
import Otoroshi.Signatures.Injectivity
import Otoroshi.Signatures.Verification
import Otoroshi.Signatures.Acceptance
import Otoroshi.Signatures.ContentDigests
import Otoroshi.Foundation.Fallible
import Otoroshi.Rights.Access
import Otoroshi.Rights.UserRights
import Otoroshi.Rights.Actions
import Otoroshi.Rights.Joining
import Otoroshi.Rights.Granting
import Otoroshi.Tls.Certificates
import Otoroshi.Tls.BestCertificate
import Otoroshi.Tls.Handshakes
import Otoroshi.Plugins.CacheRuns
import Otoroshi.Workflows.Sessions
import Otoroshi.Jwt.Agreement
import Otoroshi.Jwt.Injection
import Otoroshi.Apis.Writes
import Otoroshi.Apis.ManagedMetadata
import Otoroshi.Storage.Pages
import Otoroshi.Storage.IncrOptimizer
import Otoroshi.Apikeys.BearerClients
import Otoroshi.Utils.JsonPathValidator
import Otoroshi.Apis.Propagation
import Otoroshi.Apis.Plans
import Otoroshi.Apis.OpenRoutes
import Otoroshi.Network.TunnelRuns
import Otoroshi.Cluster.StateExports
import Otoroshi.Cluster.StateTransfer
import Otoroshi.Cluster.QuotaMessages
import Otoroshi.Cluster.QuotaPushes
import Otoroshi.Cluster.QuotaWire
import Otoroshi.Cluster.MessageRelays
import Otoroshi.Cluster.Enforcement
import Otoroshi.Workflows.Nodes
import Otoroshi.Workflows.Resuming
import Otoroshi.Workflows.Scopes
import Otoroshi.Workflows.WhileLoops
import Otoroshi.Foundation.CodeUnits
import Otoroshi.Foundation.RegexText
import Otoroshi.Foundation.RegexMatching
import Otoroshi.Utils.KaleidoscopeShim
import Otoroshi.Utils.LiteralHeads
import Otoroshi.Plugins.BodyLengths
import Otoroshi.Plugins.HeaderPlugins
import Otoroshi.Plugins.Rbac
import Otoroshi.Foundation.QuotedStrings
import Otoroshi.Network.ForwardedHeader
import Otoroshi.Network.ForwardedHops
import Otoroshi.Foundation.NormedMaps
import Otoroshi.Network.TunnelAnswers
import Otoroshi.Workflows.Operators
import Otoroshi.Foundation.RestartingWindow
import Otoroshi.Plugins.Fail2Ban
import Otoroshi.Plugins.Fail2BanRuns
import Otoroshi.Workflows.TryNodes
import Otoroshi.El.Language
import Otoroshi.El.Values
import Otoroshi.El.Chains
import Otoroshi.El.Defaults
import Otoroshi.Foundation.Slices
import Otoroshi.Storage.ListRanges
import Otoroshi.Foundation.Globs
import Otoroshi.Storage.KeyPatterns
import Otoroshi.Storage.Reads
import Otoroshi.Utils.Pagination
import Otoroshi.Rights.Formats
import Otoroshi.Foundation.BitFields
import Otoroshi.Security.IdGenerator
import Otoroshi.Security.UniqueIds
import Otoroshi.Foundation.Renaming
import Otoroshi.Jwt.Transforms
import Otoroshi.Proxy.StripPath
import Otoroshi.Foundation.Backing
import Otoroshi.Router.Backing
import Otoroshi.Router.WholeSegments
import Otoroshi.Foundation.Backtracking
import Otoroshi.Utils.FastJsonPath
import Otoroshi.Utils.JsonPathReading
import Otoroshi.Gateway.Retry
import Otoroshi.Gateway.BestResponseTime
import Otoroshi.Gateway.RoundRobin
import Otoroshi.Gateway.TargetConversion
import Otoroshi.Network.NormalizedAddresses
import Otoroshi.Network.AddressPatterns
import Otoroshi.Apikeys.Restrictions
import Otoroshi.Utils.Chunker
import Otoroshi.Foundation.Matches
import Otoroshi.Utils.ReplaceAllWith
import Otoroshi.Foundation.Intersection
import Otoroshi.Foundation.JsonEquality
import Otoroshi.Foundation.Chains
import Otoroshi.Foundation.Resumptions
import Otoroshi.Proxy.Pipeline
import Otoroshi.Proxy.PipelineRuns
import Otoroshi.Proxy.RequestRuns
import Otoroshi.Proxy.Tries
import Otoroshi.Utils.Matching
import Otoroshi.Utils.MatchingLaws
