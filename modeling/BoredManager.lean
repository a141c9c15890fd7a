import BoredManager.Js.Text
import BoredManager.Js.OrderedMap
import BoredManager.Js.Number
import BoredManager.Machine.Runs
import BoredManager.Machine.Faults
import BoredManager.Posix.Words
import BoredManager.OpenWrt.AccountList
import BoredManager.OpenWrt.Uci
import BoredManager.OpenWrt.UciScript
import BoredManager.OpenWrt.Jobs
import BoredManager.OpenWrt.JobItems
import BoredManager.OpenWrt.JobRuns
import BoredManager.OpenWrt.PppoeJobs
import BoredManager.OpenWrt.PppoeJobRuns
import BoredManager.OpenWrt.Planner.Reconcile
import BoredManager.Alloc.Exclusive
import BoredManager.Alloc.Removal
import BoredManager.OpenWrt.Planner.Ledger
import BoredManager.OpenWrt.Planner.OneToOne
import BoredManager.OpenWrt.Planner.RuleScript
import BoredManager.OpenWrt.Planner.Passes
import BoredManager.OpenWrt.Planner.NextStep
import BoredManager.OpenWrt.Planner.IpChange
import BoredManager.OpenWrt.Planner.ErrorRemap
import BoredManager.OpenWrt.Planner.Fifo
import BoredManager.OpenWrt.Planner.ValidRules
import BoredManager.Client.SettingsRuns
import BoredManager.Client.Store
import BoredManager.Client.StoreRuns
import BoredManager.Client.WsClient
import BoredManager.Client.WsClientRuns
import BoredManager.Bmc.Machines
import BoredManager.Bmc.Sweeper
import BoredManager.Bmc.SweeperQueue
import BoredManager.Bmc.SweeperRuns
import BoredManager.Fleet.ConfigRuns
import BoredManager.Gpu.AutoCap
import BoredManager.Gpu.AutoCapRuns
import BoredManager.Shared.Shell
import BoredManager.OpenWrt.Parse
import BoredManager.OpenWrt.SweepRuns
import BoredManager.OpenWrt.HostFlush
import BoredManager.Server.Settings
import BoredManager.Server.SettingsRoundTrip
import BoredManager.Shared.Check
import BoredManager.Shared.Cache
import BoredManager.Server.Connection
import BoredManager.Server.TreeDigest
import BoredManager.Server.UpdaterRuns
import BoredManager.Machine.Ledger
import BoredManager.Server.RpcEvents
import BoredManager.Server.RpcEventRuns
import BoredManager.Machine.Desk
import BoredManager.Shared.Rpc
import BoredManager.Server.RpcInvokes
import BoredManager.Server.RpcInvokeRuns
import BoredManager.Machine.Ranges
import BoredManager.Machine.Disk
import BoredManager.Server.ZipAccepted
import BoredManager.Server.ZipExtractRuns
import BoredManager.Server.RpcMachines
import BoredManager.Machine.Locks
import BoredManager.Server.RateLimit
import BoredManager.Server.Downsample
import BoredManager.Server.Cancels
import BoredManager.Shared.Modules
import BoredManager.Shared.ModuleUiAccepted
import BoredManager.Fleet.Fanout
import BoredManager.Fleet.FanoutFrames
import BoredManager.Js.Date
import BoredManager.Server.History
import BoredManager.Server.HistoryRuns
import BoredManager.Server.HistoryQuery
import BoredManager.Server.HistoryLimits
import BoredManager.Server.PrivateFile
import BoredManager.Container.CreateForm
import BoredManager.Container.CreateDocker
import BoredManager.Container.CreatePlan
import BoredManager.Container.CreateConflicts
import BoredManager.Container.Jobs
import BoredManager.Container.JobRuns
import BoredManager.Container.Tags
import BoredManager.Container.TagRuns
import BoredManager.Container.Prune
import BoredManager.Fleet.FleetJobs
import BoredManager.Fleet.Roster
import BoredManager.Fleet.Sweep
import BoredManager.Fleet.SweepRuns
import BoredManager.Fleet.HostStore
import BoredManager.Fleet.HostStoreRuns
import BoredManager.Fleet.FleetJobRuns
import BoredManager.Fleet.ActionSteps
import BoredManager.OpenWrt.Rules
import BoredManager.OpenWrt.PppoeBatches
import BoredManager.OpenWrt.PppoeNumbers
import BoredManager.OpenWrt.PppoeSearch
import BoredManager.OpenWrt.UciValues
import BoredManager.OpenWrt.TableIndex
import BoredManager.OpenWrt.SharedRules
import BoredManager.Js.Digits
import BoredManager.Js.Blanks
import BoredManager.Network.Tunables
import BoredManager.Network.TunableRuns
import BoredManager.Fleet.Net
import BoredManager.Machine.Earliest
import BoredManager.Fleet.Targets
import BoredManager.Js.Base64
import BoredManager.Machine.Fair
import BoredManager.Server.ConnectionRuns
import BoredManager.Server.PidFile
import BoredManager.Server.Poller
import BoredManager.Server.UserRuns
import BoredManager.Shared.Sections
import BoredManager.Network.Probe
import BoredManager.Network.ProbeTruth
import BoredManager.Fleet.Units
import BoredManager.Fleet.UnitsRead
import BoredManager.Js.Doubles
import BoredManager.Network.Plan
import BoredManager.Network.PlanRaises
import BoredManager.Machine.Preorder
import BoredManager.Client.TableTree
import BoredManager.Sensors.Probe
import BoredManager.Sensors.Labels
import BoredManager.Machine.Emission
import BoredManager.OpenWrt.UciChunks
import BoredManager.OpenWrt.UciChunkPlan
import BoredManager.Posix.Lines
import BoredManager.Container.CreateIncus
import BoredManager.Container.IncusProvision
import BoredManager.Server.Services
import BoredManager.Server.ServicesRuns
import BoredManager.Server.ModuleCompiler
import BoredManager.Server.ModuleBundle
import BoredManager.Client.WindowedSeries
import BoredManager.Js.Totals
import BoredManager.Network.Traffic
import BoredManager.Js.Chunks
import BoredManager.Gpu.MetricRows
import BoredManager.Gpu.Stream
import BoredManager.Gpu.StreamRuns
import BoredManager.Gpu.StreamBatches
import BoredManager.Gpu.StreamWhole
import BoredManager.Server.Metrics
import BoredManager.Server.Download
import BoredManager.Server.Auth
import BoredManager.Server.Attempts
import BoredManager.Server.AttemptRuns
import BoredManager.Server.Transactions
import BoredManager.Server.TransactionRuns
import BoredManager.Container.Install
import BoredManager.Server.KnownHosts
