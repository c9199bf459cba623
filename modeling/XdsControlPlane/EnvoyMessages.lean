import XdsControlPlane.KeyedMaps

/-!
The protobuf messages that the chapters' snapshot builders fill in. A message
keeps the fields some builder sets; every other field has its protobuf default
in all chapters. `encode_to_vec` is injective on these messages and decoded
again by the client, so a packed `Any` keeps the message in place of its bytes.
-/
namespace EnvoyMessages

structure PackedAny (M : Type) where
  typeUrl : String
  value : M
  deriving DecidableEq, Repr

def any {M : Type} (typeUrl : String) (msg : M) : PackedAny M := ⟨typeUrl, msg⟩

inductive ApiVersion where
  | auto
  | v2
  | v3
  deriving DecidableEq, Repr

inductive ConfigSourceSpecifier where
  | ads
  deriving DecidableEq, Repr

structure ConfigSource where
  resourceApiVersion : ApiVersion
  configSourceSpecifier : ConfigSourceSpecifier
  deriving DecidableEq, Repr

structure SocketAddress where
  address : String
  portValue : Nat
  deriving DecidableEq, Repr

structure Router where
  deriving DecidableEq, Repr

structure Rds where
  configSource : ConfigSource
  routeConfigName : String
  deriving DecidableEq, Repr

structure HttpFilter where
  name : String
  typedConfig : PackedAny Router
  deriving DecidableEq, Repr

structure HttpConnectionManager where
  statPrefix : String
  rds : Rds
  httpFilters : List HttpFilter
  deriving DecidableEq, Repr

structure Filter where
  name : String
  typedConfig : PackedAny HttpConnectionManager
  deriving DecidableEq, Repr

structure FilterChain where
  filters : List Filter
  deriving DecidableEq, Repr

structure Listener where
  name : String
  address : SocketAddress
  filterChains : List FilterChain
  deriving DecidableEq, Repr

structure HeaderValue where
  key : String
  value : String
  deriving DecidableEq, Repr

structure Route where
  pathPrefix : String
  cluster : String
  deriving DecidableEq, Repr

structure VirtualHost where
  name : String
  domains : List String
  responseHeadersToAdd : List HeaderValue
  routes : List Route
  deriving DecidableEq, Repr

structure RouteConfiguration where
  name : String
  virtualHosts : List VirtualHost
  deriving DecidableEq, Repr

structure Duration where
  seconds : Int
  nanos : Int
  deriving DecidableEq, Repr

inductive DiscoveryType where
  | eds
  deriving DecidableEq, Repr

structure EdsClusterConfig where
  edsConfig : ConfigSource
  serviceName : String
  deriving DecidableEq, Repr

structure Cluster where
  name : String
  connectTimeout : Duration
  clusterDiscoveryType : DiscoveryType
  edsClusterConfig : EdsClusterConfig
  deriving DecidableEq, Repr

structure LbEndpoint where
  address : SocketAddress
  loadBalancingWeight : Option Nat
  deriving DecidableEq, Repr

structure LocalityLbEndpoints where
  lbEndpoints : List LbEndpoint
  deriving DecidableEq, Repr

structure ClusterLoadAssignment where
  clusterName : String
  endpoints : List LocalityLbEndpoints
  deriving DecidableEq, Repr

/-- What a snapshot packs into the `Any` of one resource. -/
inductive Message where
  | listener : Listener → Message
  | routeConfiguration : RouteConfiguration → Message
  | cluster : Cluster → Message
  | clusterLoadAssignment : ClusterLoadAssignment → Message
  deriving DecidableEq, Repr

abbrev Any := PackedAny Message

def tListener : String := "type.googleapis.com/envoy.config.listener.v3.Listener"
def tRoute : String := "type.googleapis.com/envoy.config.route.v3.RouteConfiguration"
def tCluster : String := "type.googleapis.com/envoy.config.cluster.v3.Cluster"
def tEndpoint : String := "type.googleapis.com/envoy.config.endpoint.v3.ClusterLoadAssignment"
def tHcm : String :=
  "type.googleapis.com/envoy.extensions.filters.network.http_connection_manager.v3.HttpConnectionManager"
def tRouter : String := "type.googleapis.com/envoy.extensions.filters.http.router.v3.Router"

def listenerName : String := "primary_listener"
def routeName : String := "primary_route"
def clusterName : String := "upstream_cluster"
def listenerPort : Nat := 10000
def upstreamPort : Nat := 9000

def adsConfigSource : ConfigSource := ⟨.v3, .ads⟩

/- The builders that several chapters share, up to the names they put in. -/

def listenerWith (statPrefix name routeConfigName : String) : Listener :=
  let routerAny := any tRouter Router.mk
  let hcm : HttpConnectionManager :=
    { statPrefix := statPrefix
      rds := ⟨adsConfigSource, routeConfigName⟩
      httpFilters := [⟨"envoy.filters.http.router", routerAny⟩] }
  { name := name
    address := ⟨"0.0.0.0", listenerPort⟩
    filterChains := [⟨[⟨"envoy.filters.network.http_connection_manager", any tHcm hcm⟩]⟩] }

def routeConfigWith (name cluster : String) (headers : List HeaderValue) : RouteConfiguration :=
  { name := name
    virtualHosts :=
      [{ name := "all"
         domains := ["*"]
         responseHeadersToAdd := headers
         routes := [⟨"/", cluster⟩] }] }

def clusterWith (name serviceName : String) : Cluster :=
  { name := name
    connectTimeout := ⟨5, 0⟩
    clusterDiscoveryType := .eds
    edsClusterConfig := ⟨adsConfigSource, serviceName⟩ }

def endpointsWith (clusterName : String) (lbEndpoints : List LbEndpoint) : ClusterLoadAssignment :=
  ⟨clusterName, [⟨lbEndpoints⟩]⟩

/-- `format!("v{n}")`. -/
def versionLabel (n : UInt64) : String := "v" ++ toString n.toNat

theorem version_label_injective : Function.Injective versionLabel := by
  intro m n same
  have digits : toString m.toNat = toString n.toNat := (String.append_right_inj "v").mp same
  exact UInt64.toNat_inj.mp (Nat.repr_inj.mp digits)

example : versionLabel 12 = "v12" := by decide

end EnvoyMessages
