import XdsControlPlane.EnvoyMessages

/-!
Chapter 2, `snapshot.rs`: one version stamped across the resources of all four
types. `broken` differs from `good` in the Listener's empty `stat_prefix` only.
The builders return a `Result` that is always `Ok`, so they are total here.
-/
namespace SotwSnapshots
open KeyedMaps EnvoyMessages

structure DiscoveryResponse where
  versionInfo : String
  resources : List Any
  canary : Bool
  typeUrl : String
  nonce : String
  deriving DecidableEq, Repr

structure Snapshot where
  version : String
  byType : HashMap String (List Any)

def listener (broken : Bool) : Listener :=
  listenerWith (if broken then "" else "ingress_http") listenerName routeName

def routeConfig : RouteConfiguration := routeConfigWith routeName clusterName []

def cluster : Cluster := clusterWith clusterName ""

def endpoints (ip : String) : ClusterLoadAssignment :=
  endpointsWith clusterName [⟨⟨ip, upstreamPort⟩, none⟩]

def Snapshot.build (version upstreamIp : String) (broken : Bool) : Snapshot :=
  { version := version
    byType := insertAll ∅
      [(tListener, [any tListener (.listener (listener broken))]),
       (tRoute, [any tRoute (.routeConfiguration routeConfig)]),
       (tCluster, [any tCluster (.cluster cluster)]),
       (tEndpoint, [any tEndpoint (.clusterLoadAssignment (endpoints upstreamIp))])] }

def Snapshot.good (version upstreamIp : String) : Snapshot := .build version upstreamIp false

def Snapshot.broken (version upstreamIp : String) : Snapshot := .build version upstreamIp true

def short (typeUrl : String) : String :=
  if typeUrl = tListener then "lds"
  else if typeUrl = tRoute then "rds"
  else if typeUrl = tCluster then "cds"
  else if typeUrl = tEndpoint then "eds"
  else "xds"

def Snapshot.buildResponse (s : Snapshot) (typeUrl : String) : Option DiscoveryResponse :=
  (s.byType.lookup typeUrl).map fun resources =>
    { versionInfo := s.version
      resources := resources
      canary := false
      typeUrl := typeUrl
      nonce := short typeUrl ++ "-" ++ s.version }

theorem build_response_fields {s : Snapshot} {typeUrl : String} {r : DiscoveryResponse}
    (h : s.buildResponse typeUrl = some r) :
    r.typeUrl = typeUrl ∧ r.versionInfo = s.version ∧
      r.nonce = short typeUrl ++ "-" ++ s.version := by
  obtain ⟨resources, _, rfl⟩ := Option.map_eq_some_iff.mp h
  exact ⟨rfl, rfl, rfl⟩

theorem build_lookup (version ip : String) (broken : Bool) (typeUrl : String) :
    (Snapshot.build version ip broken).byType.lookup typeUrl =
      if typeUrl = tEndpoint then
        some [any tEndpoint (.clusterLoadAssignment (endpoints ip))]
      else if typeUrl = tCluster then some [any tCluster (.cluster cluster)]
      else if typeUrl = tRoute then some [any tRoute (.routeConfiguration routeConfig)]
      else if typeUrl = tListener then some [any tListener (.listener (listener broken))]
      else none := by
  simp only [Snapshot.build, insertAll, List.foldl_cons, List.foldl_nil, lookup_insert,
    AList.lookup_empty]

/-- The types a built snapshot holds, whatever its version and address. -/
theorem build_holds_iff (version ip : String) (broken : Bool) (typeUrl : String) :
    ((Snapshot.build version ip broken).buildResponse typeUrl).isSome ↔
      typeUrl ∈ [tListener, tRoute, tCluster, tEndpoint] := by
  simp only [Snapshot.buildResponse, Option.isSome_map, build_lookup, List.mem_cons,
    List.not_mem_nil, or_false]
  split_ifs <;> simp_all

theorem build_lookup_listener (version ip : String) (broken : Bool) :
    (Snapshot.build version ip broken).byType.lookup tListener =
      some [any tListener (.listener (listener broken))] := by
  rw [build_lookup, if_neg (by decide), if_neg (by decide), if_neg (by decide), if_pos rfl]

/-- A broken snapshot is never a good one: their Listeners differ. -/
theorem broken_ne_good (v v' ip ip' : String) : Snapshot.broken v ip ≠ Snapshot.good v' ip' := by
  intro same
  have held := congrArg (fun s : Snapshot => s.byType.lookup tListener) same
  simp only [Snapshot.broken, Snapshot.good, build_lookup_listener] at held
  exact absurd held (by decide)

end SotwSnapshots
