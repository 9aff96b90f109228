import AdguardAdmin.RunLaws
import AdguardAdmin.FaultyPrograms
import AdguardAdmin.IpLiterals
import AdguardAdmin.GoText
import AdguardAdmin.JsonValue
import AdguardAdmin.Inventory
import AdguardAdmin.PyText
import AdguardAdmin.SpecBuilders
import AdguardAdmin.IpvsBackendRole
import AdguardAdmin.KeepalivedSpec
import AdguardAdmin.KeepalivedRole
import AdguardAdmin.DnsdistSpec
import AdguardAdmin.DnsdistRole
import AdguardAdmin.StandingDown
import AdguardAdmin.PoolReachability
import AdguardAdmin.Utf8
import AdguardAdmin.JsonText
import AdguardAdmin.CanonicalJson
import AdguardAdmin.SyncPlan
import AdguardAdmin.AdGuardServer
import AdguardAdmin.SyncPass
import AdguardAdmin.SyncFixpoint
import AdguardAdmin.PyAddress
import AdguardAdmin.Validators
import AdguardAdmin.BalancerPlan
import AdguardAdmin.ValidatedFields
import AdguardAdmin.HealthCheckNames
import AdguardAdmin.BackendNames
import AdguardAdmin.DnsdistDecoding
import AdguardAdmin.KeepalivedDecoding
import AdguardAdmin.SpecAcceptance
import AdguardAdmin.Manager
import AdguardAdmin.WakeUps
import AdguardAdmin.RoleStatus
import AdguardAdmin.StoredSpec
import AdguardAdmin.Drains
import AdguardAdmin.DrainFile
import AdguardAdmin.DrainsHeld
import AdguardAdmin.Registry
import AdguardAdmin.ServerRemoval
import AdguardAdmin.ZoneScopes
import AdguardAdmin.Provisioning
import AdguardAdmin.BalancerEdits
import AdguardAdmin.BalancerRules
import AdguardAdmin.Enrollment
import AdguardAdmin.DrainCalls
import AdguardAdmin.DrainedServers
import AdguardAdmin.BalancerHosts
import AdguardAdmin.AdguardSpec
import AdguardAdmin.AdguardRole
import AdguardAdmin.AdguardConverge
import AdguardAdmin.AdguardRuns
import AdguardAdmin.CompatWrites
import AdguardAdmin.ReadCache
import AdguardAdmin.UpdateHistory
import AdguardAdmin.SyncGrowth
import AdguardAdmin.FileSystem
import AdguardAdmin.SelfUpdate
import AdguardAdmin.CertRenewal
import AdguardAdmin.AsyncLock
import AdguardAdmin.ContainerSwaps
import AdguardAdmin.ServerLocks
import AdguardAdmin.HourlyRollup
import AdguardAdmin.HostnameRecords
import AdguardAdmin.DryRun
import AdguardAdmin.SingleSignOn
import AdguardAdmin.WriteBack
import AdguardAdmin.Imports
import AdguardAdmin.UpstreamSyntax
import AdguardAdmin.UpstreamImports
import AdguardAdmin.UpstreamMeaning
import AdguardAdmin.PortOwners
import AdguardAdmin.PushPasses
import AdguardAdmin.AgentUpdates
import AdguardAdmin.QuietPushes
import AdguardAdmin.LbViews
import AdguardAdmin.LbViewRuns
import AdguardAdmin.LastAdmin
import AdguardAdmin.RejectedConfig
import AdguardAdmin.SetDrained
import AdguardAdmin.CursorReader
import AdguardAdmin.IpvsListing
import AdguardAdmin.IpvsReaders
import AdguardAdmin.IpvsPrints
import AdguardAdmin.IpvsStatus
import AdguardAdmin.BackendStates
import AdguardAdmin.YamlTree
import AdguardAdmin.AghYaml
import AdguardAdmin.BindEdits
import AdguardAdmin.BindSharing
import AdguardAdmin.DnsdistLua
import AdguardAdmin.Migration
import AdguardAdmin.CompatRewrites
import AdguardAdmin.ProxyRedirects
import AdguardAdmin.InertHosts
import AdguardAdmin.ExpositionText
import AdguardAdmin.MetricsPage
import AdguardAdmin.MetricsLines
import AdguardAdmin.MetricsNames
import AdguardAdmin.NewestEntries
import AdguardAdmin.PyTime
import AdguardAdmin.MergedLog
import AdguardAdmin.Series
import AdguardAdmin.SeriesBuckets
import AdguardAdmin.LoginThrottle
import AdguardAdmin.ThrottledGuesses
import AdguardAdmin.BlockText
import AdguardAdmin.KeepalivedTree
import AdguardAdmin.RenderedSpecs
import AdguardAdmin.AdguardChanges
import AdguardAdmin.AsyncSemaphore
import AdguardAdmin.BoundedGather
import AdguardAdmin.FleetCalls
import AdguardAdmin.MaintenanceWindow
import AdguardAdmin.OnBoxUpdater
import AdguardAdmin.FleetPasses
import AdguardAdmin.AccessTokens
import AdguardAdmin.DnsWire
import AdguardAdmin.DnsProbe
import AdguardAdmin.EnrolledFiles
import AdguardAdmin.CertChains
import AdguardAdmin.MutualTls
import AdguardAdmin.ShellText
import AdguardAdmin.InstallScript
import AdguardAdmin.ResetCounters
import AdguardAdmin.CounterRates
