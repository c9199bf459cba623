import XdsControlPlane.ResourceGraphs
import XdsControlPlane.DeltaStream

/-!
The walk of the configuration graph. A listener names its routes, a route its cluster
and a cluster its endpoints; a client subscribes to listeners and clusters and then to
what it finds named. Forwarding is the same walk, down to the endpoints' addresses.
-/
namespace ConfigWalk
open EnvoyMessages DeltaSnapshots DeltaStream ResourceGraphs

/-- The name of a cluster's endpoints: its own where `service_name` is empty. -/
def edsServiceName (c : Cluster) : String :=
  if c.edsClusterConfig.serviceName = "" then c.name else c.edsClusterConfig.serviceName

def references : Message → List (String × String)
  | .listener l => l.filterChains.flatMap fun chain =>
      chain.filters.map fun f => (tRoute, f.typedConfig.value.rds.routeConfigName)
  | .routeConfiguration rc => rc.virtualHosts.flatMap fun host =>
      host.routes.map fun route => (tCluster, route.cluster)
  | .cluster c => [(tEndpoint, edsServiceName c)]
  | .clusterLoadAssignment _ => []

def addresses : Message → List SocketAddress
  | .clusterLoadAssignment cla => cla.endpoints.flatMap fun locality =>
      locality.lbEndpoints.map LbEndpoint.address
  | _ => []

/-- A snapshot's resources, from the listeners and clusters that `root` picks. -/
def graph (snap : Snapshot) (root : String × String → Prop) :
    RefGraph (String × String) ResourceEntry where
  get k := snap.get k.1 k.2
  refs e := references e.body.value
  root := root

def addressesFrom (cache : Cache) : Nat → String × String → List SocketAddress :=
  collect (fun k => cache k.1 k.2) (fun e => references e.body.value) fun e => addresses e.body.value

/-- Where a listener forwards to: to the endpoints of the clusters of its routes. -/
def forwards (cache : Cache) (listenerName : String) : List SocketAddress :=
  addressesFrom cache 4 (tListener, listenerName)

def way (e : ResourceEntry) : List (String × String) × List SocketAddress :=
  (references e.body.value, addresses e.body.value)

theorem addresses_pass {cache : Cache} {t n : String} {e : ResourceEntry} {k : String × String}
    (held : cache t n = some e) (sees : way e = ([k], [])) (depth : Nat) :
    addressesFrom cache (depth + 1) (t, n) = addressesFrom cache depth k := by
  have follow : addressesFrom cache (depth + 1) (t, n) =
      addresses e.body.value ++ (references e.body.value).flatMap (addressesFrom cache depth) :=
    collect_some (k := (t, n)) held depth
  obtain ⟨refs, none⟩ := Prod.mk.inj sees
  rw [follow, refs, none, List.flatMap_singleton, List.nil_append]

theorem addresses_end {cache : Cache} {t n : String} {e : ResourceEntry} {as : List SocketAddress}
    (held : cache t n = some e) (sees : way e = ([], as)) (depth : Nat) :
    addressesFrom cache (depth + 1) (t, n) = as := by
  have follow : addressesFrom cache (depth + 1) (t, n) =
      addresses e.body.value ++ (references e.body.value).flatMap (addressesFrom cache depth) :=
    collect_some (k := (t, n)) held depth
  obtain ⟨refs, yields⟩ := Prod.mk.inj sees
  rw [follow, refs, yields, List.flatMap_nil, List.append_nil]

theorem forwards_agree {snap : Snapshot} {root : String × String → Prop} {cache : Cache}
    (agree : ∀ k, (graph snap root).Reachable k →
      (cache k.1 k.2).map way = (snap.get k.1 k.2).map way) {name : String}
    (isRoot : root (tListener, name)) : forwards cache name = forwards snap.get name :=
  collect_agrees (g := graph snap root) agree 4 (.root isRoot)

end ConfigWalk
