import XdsControlPlane.EnvoyMessages

/-!
Chapter 3, `snapshot.rs`, `tls.rs` and `xtls.rs`: Chapter 2's snapshot whose
Listener terminates TLS, with the certificate as a resource of its own. The
Listener names the secret and never carries it. As in Chapter 2 the builders'
`Result` is always `Ok`; minting a certificate is not, and is left to the run.
-/
namespace TlsSnapshots
open KeyedMaps EnvoyMessages

/-- A PEM-encoded certificate and its private key. -/
structure CertPem where
  cert : String
  key : String
  deriving DecidableEq, Repr

structure SdsSecretConfig where
  name : String
  sdsConfig : ConfigSource
  deriving DecidableEq, Repr

structure CommonTlsContext where
  tlsCertificateSdsSecretConfigs : List SdsSecretConfig
  deriving DecidableEq, Repr

structure DownstreamTlsContext where
  commonTlsContext : CommonTlsContext
  deriving DecidableEq, Repr

structure TransportSocket where
  name : String
  typedConfig : PackedAny DownstreamTlsContext
  deriving DecidableEq, Repr

structure TlsFilterChain where
  filters : List Filter
  transportSocket : TransportSocket
  deriving DecidableEq, Repr

structure TlsListener where
  name : String
  address : SocketAddress
  filterChains : List TlsFilterChain
  deriving DecidableEq, Repr

structure DataSource where
  inlineString : String
  deriving DecidableEq, Repr

structure TlsCertificate where
  certificateChain : DataSource
  privateKey : DataSource
  deriving DecidableEq, Repr

structure Secret where
  name : String
  tlsCertificate : TlsCertificate
  deriving DecidableEq, Repr

inductive TlsMessage where
  | listener : TlsListener → TlsMessage
  | secret : Secret → TlsMessage
  | plain : Message → TlsMessage
  deriving DecidableEq, Repr

def tSecret : String := "type.googleapis.com/envoy.extensions.transport_sockets.tls.v3.Secret"
def tDownstreamTls : String :=
  "type.googleapis.com/envoy.extensions.transport_sockets.tls.v3.DownstreamTlsContext"

def secretName : String := "server_cert"

def downstreamTlsContext : DownstreamTlsContext := ⟨⟨[⟨secretName, adsConfigSource⟩]⟩⟩

def listener : TlsListener :=
  let plain := listenerWith "ingress_http" listenerName routeName
  let tlsAny := any tDownstreamTls downstreamTlsContext
  { name := plain.name
    address := plain.address
    filterChains := plain.filterChains.map fun chain =>
      ⟨chain.filters, ⟨"envoy.transport_sockets.tls", tlsAny⟩⟩ }

def secret (cert : CertPem) : Secret := ⟨secretName, ⟨⟨cert.cert⟩, ⟨cert.key⟩⟩⟩

def routeConfig : RouteConfiguration := routeConfigWith routeName clusterName []

def cluster : Cluster := clusterWith clusterName ""

def endpoints (ip : String) : ClusterLoadAssignment :=
  endpointsWith clusterName [⟨⟨ip, upstreamPort⟩, none⟩]

structure DiscoveryResponse where
  versionInfo : String
  resources : List (PackedAny TlsMessage)
  canary : Bool
  typeUrl : String
  nonce : String
  deriving DecidableEq, Repr

structure Snapshot where
  version : String
  byType : HashMap String (List (PackedAny TlsMessage))

def Snapshot.build (version upstreamIp : String) (cert : CertPem) : Snapshot :=
  { version := version
    byType := insertAll ∅
      [(tListener, [any tListener (.listener listener)]),
       (tRoute, [any tRoute (.plain (.routeConfiguration routeConfig))]),
       (tCluster, [any tCluster (.plain (.cluster cluster))]),
       (tEndpoint, [any tEndpoint (.plain (.clusterLoadAssignment (endpoints upstreamIp)))]),
       (tSecret, [any tSecret (.secret (secret cert))])] }

def short (typeUrl : String) : String :=
  if typeUrl = tListener then "lds"
  else if typeUrl = tRoute then "rds"
  else if typeUrl = tCluster then "cds"
  else if typeUrl = tEndpoint then "eds"
  else if typeUrl = tSecret then "sds"
  else "xds"

def Snapshot.buildResponse (s : Snapshot) (typeUrl : String) : Option DiscoveryResponse :=
  (s.byType.lookup typeUrl).map fun resources =>
    { versionInfo := s.version
      resources := resources
      canary := false
      typeUrl := typeUrl
      nonce := short typeUrl ++ "-" ++ s.version }

theorem build_response_version {s : Snapshot} {typeUrl : String} {r : DiscoveryResponse}
    (h : s.buildResponse typeUrl = some r) : r.versionInfo = s.version := by
  obtain ⟨resources, _, rfl⟩ := Option.map_eq_some_iff.mp h
  rfl

/-- Whatever else a snapshot holds, its one secret is the certificate it was built with. -/
theorem build_secret (version ip : String) (cert : CertPem) :
    (Snapshot.build version ip cert).byType.lookup tSecret =
      some [any tSecret (.secret (secret cert))] := by
  simp only [Snapshot.build, insertAll, List.foldl_cons, List.foldl_nil, lookup_insert, if_true]

end TlsSnapshots
