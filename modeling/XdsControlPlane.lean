import XdsControlPlane.ExecutableRuns
import XdsControlPlane.SharedCells
import XdsControlPlane.IncrementalSync
import XdsControlPlane.EnvoyMessages
import XdsControlPlane.SotwSnapshots
import XdsControlPlane.SotwServer
import XdsControlPlane.SotwConvergence
import XdsControlPlane.SotwRollback
import XdsControlPlane.SotwAcceptance
import XdsControlPlane.SotwSettling
import XdsControlPlane.DeltaSnapshots
import XdsControlPlane.DeltaStream
import XdsControlPlane.SotwNonces
import XdsControlPlane.DeltaSubscriptions
import XdsControlPlane.DeltaClients
import XdsControlPlane.DeltaServer
import XdsControlPlane.DeltaConvergence
import XdsControlPlane.OrcaServer
import XdsControlPlane.DeltaDifference
import XdsControlPlane.GlobExtension
import XdsControlPlane.NumberedCalls
import XdsControlPlane.OrcaWeights
import XdsControlPlane.XdstpNames
import XdsControlPlane.NumberedPublishing
import XdsControlPlane.TlsServer
import XdsControlPlane.PublicationOrder
import XdsControlPlane.DeltaRoutePush
import XdsControlPlane.HelloServer
import XdsControlPlane.WatchReaders
import XdsControlPlane.VersionedPushes
import XdsControlPlane.DrawnNumbers
import XdsControlPlane.SilentTasks
import XdsControlPlane.TlsStreams
import XdsControlPlane.OrcaRefinement
import XdsControlPlane.OrcaStreams
import XdsControlPlane.OrcaSettling
import XdsControlPlane.SotwStreams
import XdsControlPlane.DeltaHistory
import XdsControlPlane.ResourceGraphs
import XdsControlPlane.ConfigWalk
import XdsControlPlane.DeltaRouting
import XdsControlPlane.XdstpServer
import XdsControlPlane.XdstpDiscovery
import XdsControlPlane.SotwTraffic
import XdsControlPlane.RunPotentials
import XdsControlPlane.SotwQuiescence
import XdsControlPlane.RequestHandlers
import XdsControlPlane.AdminApis
