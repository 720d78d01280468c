import Pingsix.Lib.Text
import Pingsix.Lib.Utf8
import Pingsix.Lib.Map
import Pingsix.Lib.Json
import Pingsix.Lib.Except
import Pingsix.Lib.Net
import Pingsix.Node
import Pingsix.Resources
import Pingsix.Externals
import Pingsix.Encryption
import Pingsix.AiProxy
import Pingsix.TrafficSplit
import Pingsix.Plugins
import Pingsix.ConfigSet
import Pingsix.Secrets
import Pingsix.Decode
import Pingsix.DecodeSound
import Pingsix.Tls
import Pingsix.Admin
import Pingsix.AdminSound
import Pingsix.Error
import Pingsix.Store
import Pingsix.Keys
import Pingsix.Sync
import Pingsix.Etcd
import Pingsix.SyncSound
import Pingsix.Lib.System
import Pingsix.ApiBreakerSound
import Pingsix.Publication
import Pingsix.Status
import Pingsix.Authority
import Pingsix.FreshnessSound
import Pingsix.VarySound
import Pingsix.WorkerSound
import Pingsix.Gateway
import Pingsix.PublicationSound
import Pingsix.RegistrySound
import Pingsix.RemovalSound
import Pingsix.NodeSound
import Pingsix.RetrySound
import Pingsix.RetryDecisionSound
import Pingsix.ClientControlSound
import Pingsix.MirrorBodySound
import Pingsix.MirrorResolverSound
import Pingsix.PrometheusSound
import Pingsix.Matcher
import Pingsix.MatcherSound
import Pingsix.MergeSound
import Pingsix.PreflightSound
import Pingsix.LoadBalancer
import Pingsix.PluginBuild
import Pingsix.Compile
import Pingsix.Runtime
import Pingsix.Plan
import Pingsix.TemplateSound
import Pingsix.TrafficSplitSound
import Pingsix.BuildSound
import Pingsix.EtcdStore
import Pingsix.EtcdStoreSound
import Pingsix.PurgeSound
import Pingsix.ReadinessSound
import Pingsix.Shutdown
import Pingsix.ShutdownSound
import Pingsix.Lib.Base64
import Pingsix.EncryptionSound
import Pingsix.Lib.Shape
import Pingsix.SecretSchema
import Pingsix.SecretsSound
import Pingsix.RedactionSound
import Pingsix.ResaveSound
import Pingsix.ValidationSound
import Pingsix.Lib.Broadcast
import Pingsix.HealthCheck
import Pingsix.HealthCheckSound
import Pingsix.Template
import Pingsix.Limiting
import Pingsix.LimitConn
import Pingsix.LimitingSound
import Pingsix.Lib.Sums
import Pingsix.LimitConnSound
import Pingsix.LimitConnOverflow
import Pingsix.LimitReq
import Pingsix.LimitReqSound
import Pingsix.LimitCount
import Pingsix.LimitCountSound
import Pingsix.Lib.Delimited
import Pingsix.Lib.HttpMessage
import Pingsix.Request
import Pingsix.RequestContext
import Pingsix.AuthPlugins
import Pingsix.CachePlugin
import Pingsix.CredentialSound
import Pingsix.CsrfSound
import Pingsix.CacheKeySound
import Pingsix.RequestPipeline
import Pingsix.PipelineSound
import Pingsix.ConfinementSound
import Pingsix.IsolationSound
import Pingsix.SelectionSound
import Pingsix.PassiveHealthSound
import Pingsix.Lib.Slice
import Pingsix.Slicing
import Pingsix.SniSound
import Pingsix.DecryptSound
import Pingsix.DiscoverySound
import Pingsix.FingerprintOrder
import Pingsix.LimitReqBound
import Pingsix.LimitCountLog
import Pingsix.OrderSound
import Pingsix.PlanningSound
import Pingsix.PrecedenceSound
import Pingsix.ForwardedSound
import Pingsix.ChunkingSound
import Pingsix.BodyValidationSound
import Pingsix.CorsSound
import Pingsix.TransformSound
import Pingsix.ExitTransformerSound
import Pingsix.VariablesSound
import Pingsix.QueryMergeSound
import Pingsix.RedirectSound
import Pingsix.LoggingSound
import Pingsix.JwtAuthSound
import Pingsix.HiddenSound
import Pingsix.ProxyRewriteSound
import Pingsix.FileLoggerSound
import Pingsix.SweepSound
import Pingsix.InsertionSound
import Pingsix.RequestIdSound
import Pingsix.LogRotationSound
import Pingsix.AlikeSound
import Pingsix.RuntimeStoreSound
import Pingsix.ClusterSound
import Pingsix.RefreshSound
import Pingsix.SchemaHints
import Pingsix.AdminApp
import Pingsix.Phases
