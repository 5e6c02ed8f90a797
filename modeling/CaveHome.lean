import CaveHome.Alarm.Machine
import CaveHome.Alarm.MachineSafety
import CaveHome.Apiserver.Confine
import CaveHome.Apiserver.Handler
import CaveHome.Apiserver.HandlerWrites
import CaveHome.Apiserver.Http
import CaveHome.Apiserver.Json
import CaveHome.Apiserver.JsonExact
import CaveHome.Apiserver.JsonNumbers
import CaveHome.Apiserver.JsonPrint
import CaveHome.Apiserver.JsonStrings
import CaveHome.Apiserver.MergePatch
import CaveHome.Apiserver.Meta
import CaveHome.Apiserver.PathRoundTrip
import CaveHome.Apiserver.PointerLaws
import CaveHome.Apiserver.Rbac
import CaveHome.Apiserver.Registry
import CaveHome.Apiserver.Selector
import CaveHome.Apiserver.StatusOnly
import CaveHome.Apiserver.Storage
import CaveHome.Apiserver.Types
import CaveHome.Automation.EntityIds
import CaveHome.Automation.EventBus
import CaveHome.Automation.EventOrder
import CaveHome.Automation.ListenerRuns
import CaveHome.Calendar.Candidates
import CaveHome.Calendar.CivilAgreement
import CaveHome.Calendar.Date
import CaveHome.Calendar.Duration
import CaveHome.Calendar.Expansion
import CaveHome.Calendar.RRule
import CaveHome.Calendar.RuleText
import CaveHome.ControllerManager.Apis
import CaveHome.ControllerManager.Civil
import CaveHome.ControllerManager.CronFields
import CaveHome.ControllerManager.CronJob
import CaveHome.ControllerManager.CronJobRuns
import CaveHome.ControllerManager.Deployment
import CaveHome.ControllerManager.Gc
import CaveHome.ControllerManager.IndexQueries
import CaveHome.ControllerManager.Informer
import CaveHome.ControllerManager.LeaderElection
import CaveHome.ControllerManager.Namespace
import CaveHome.ControllerManager.NoClobber
import CaveHome.ControllerManager.Recreate
import CaveHome.ControllerManager.ReplicaSet
import CaveHome.ControllerManager.RollingBounds
import CaveHome.ControllerManager.Rollout
import CaveHome.ControllerManager.RolloutRun
import CaveHome.ControllerManager.StatefulSet
import CaveHome.ControllerManager.Store
import CaveHome.ControllerManager.Types
import CaveHome.ControllerManager.WorkQueue
import CaveHome.ControllerManager.WorkQueueDelays
import CaveHome.Dns.Arpa
import CaveHome.Dns.Cache
import CaveHome.Dns.Forward
import CaveHome.Dns.Message
import CaveHome.Dns.Wire
import CaveHome.Dns.Zone
import CaveHome.Dns.ZoneAgrees
import CaveHome.Flannel.Allocation
import CaveHome.Flannel.Cidr
import CaveHome.Flannel.DualStack
import CaveHome.Flannel.SubnetIter
import CaveHome.Flannel.SubnetManager
import CaveHome.Kine.Backend
import CaveHome.Kine.Compact
import CaveHome.Kine.CompactGuards
import CaveHome.Kine.CompactReads
import CaveHome.Kine.Grpc
import CaveHome.Kine.GrpcTxn
import CaveHome.Kine.GrpcWatch
import CaveHome.Kine.Invariant
import CaveHome.Kine.LeaseExpiry
import CaveHome.Kine.LikePrefilter
import CaveHome.Kine.Range
import CaveHome.Kine.Sqlite
import CaveHome.Kine.SqliteRefinement
import CaveHome.Kine.Store
import CaveHome.Kine.Txn
import CaveHome.Kine.TxnAtomic
import CaveHome.Kine.Watch
import CaveHome.Kine.WriteSpans
import CaveHome.KubeProxy.Dispatch
import CaveHome.KubeProxy.EndpointSelection
import CaveHome.KubeProxy.LatestObjects
import CaveHome.KubeProxy.ServiceTraffic
import CaveHome.Kubelet.ContainerGc
import CaveHome.Kubelet.Cri
import CaveHome.Kubelet.Pleg
import CaveHome.Kubelet.PlegReports
import CaveHome.Kubelet.PodStatus
import CaveHome.Kubelet.PodWorker
import CaveHome.Kubelet.Recovery
import CaveHome.Kubelet.StatusManager
import CaveHome.Kubelet.SyncCore
import CaveHome.Lib.AddressBlock
import CaveHome.Lib.BTreeMap
import CaveHome.Lib.CheckDigits
import CaveHome.Lib.Decoder
import CaveHome.Lib.Delimited
import CaveHome.Lib.Dict
import CaveHome.Lib.Emit
import CaveHome.Lib.Framing
import CaveHome.Lib.Gregorian
import CaveHome.Lib.JsonText
import CaveHome.Lib.MachineData
import CaveHome.Lib.Numeral
import CaveHome.Lib.Radix
import CaveHome.Lib.Ranks
import CaveHome.Lib.Rounds
import CaveHome.Lib.Saturate
import CaveHome.Lib.SqlLike
import CaveHome.Lib.Text
import CaveHome.Lib.TokenBucket
import CaveHome.Lib.VersionedLog
import CaveHome.Matter.ManualCode
import CaveHome.Matter.SetupPayload
import CaveHome.Matter.SetupPayloadRoundTrip
import CaveHome.Mqtt.Bridge
import CaveHome.Mqtt.Broker
import CaveHome.Mqtt.BrokerAcl
import CaveHome.Mqtt.BrokerGauge
import CaveHome.Mqtt.BrokerOrigin
import CaveHome.Mqtt.BrokerQos2
import CaveHome.Mqtt.BrokerResume
import CaveHome.Mqtt.BrokerStep
import CaveHome.Mqtt.Codec
import CaveHome.Mqtt.CodecRoundTrip
import CaveHome.Mqtt.Frame
import CaveHome.Mqtt.Hub
import CaveHome.Mqtt.PacketIds
import CaveHome.Mqtt.Property
import CaveHome.Mqtt.Session
import CaveHome.Mqtt.Topic
import CaveHome.Mqtt.V311RoundTrip
import CaveHome.Mqtt.Wire
import CaveHome.Orchestration.LocalPath
import CaveHome.Scheduler.BindingCycle
import CaveHome.Scheduler.Cache
import CaveHome.Scheduler.CacheAccounts
import CaveHome.Scheduler.CacheOnce
import CaveHome.Scheduler.HostChoice
import CaveHome.Scheduler.NodeTotals
import CaveHome.Scheduler.Overcommit
import CaveHome.Scheduler.Plugins
import CaveHome.Scheduler.Preemption
import CaveHome.Scheduler.Queue
import CaveHome.Scheduler.QueueOnce
import CaveHome.Scheduler.ScheduleOne
import CaveHome.Secrets.Keyring
import CaveHome.Secrets.Rotation
import CaveHome.Traefik.Circuit
import CaveHome.Traefik.RateLimit
import CaveHome.Zigbee.Framers
