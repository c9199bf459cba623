import XdsControlPlane.ExecutableRuns
import XdsControlPlane.SharedCells
import XdsControlPlane.DeltaServer
import XdsControlPlane.XdstpNames

/-!
Chapter 5, `main.rs` and `snapshot.rs`: the snapshot with its names under two
authorities, and the Delta streams that serve it. The loop and its variables are
Chapter 4's, the difference is taken with globs. There is no admin call that
publishes, so the one snapshot is advertised for ever.
-/
namespace XdstpServer
open ExecutableRuns SharedCells KeyedMaps EnvoyMessages DeltaSnapshots DeltaStream XdstpNames
open DeltaServer (Phase AdsStream LoopAct LoopStep stepLoop loop_step)

/- The snapshot -/

def authHw : String := "hardway"
def authEdge : String := "edge"

def ldsName : String := xdstp authHw tListener "primary"
def rdsName : String := xdstp authHw tRoute "primary"
def cdsName : String := xdstp authEdge tCluster "upstream"
def edsName : String := xdstp authEdge tEndpoint "upstream"

def listener : Listener := listenerWith "ingress_http" ldsName rdsName

def routeConfig : RouteConfiguration := routeConfigWith rdsName cdsName []

def cluster : Cluster := clusterWith cdsName edsName

def endpoints (ip : String) : ClusterLoadAssignment :=
  endpointsWith edsName [⟨⟨ip, upstreamPort⟩, none⟩]

def build (upstreamIp : String) : Snapshot :=
  let byType := put ∅ tListener ldsName "v1" (.listener listener)
  let byType := put byType tRoute rdsName "v1" (.routeConfiguration routeConfig)
  let byType := put byType tCluster cdsName "v1" (.cluster cluster)
  let byType := put byType tEndpoint edsName "v1" (.clusterLoadAssignment (endpoints upstreamIp))
  { systemVersion := "v1", byType := byType }

/-- Type and name of each resource of the snapshot. -/
def catalogue : List (String × String) :=
  [(tListener, ldsName), (tRoute, rdsName), (tCluster, cdsName), (tEndpoint, edsName)]

theorem build_get (ip t n : String) :
    (build ip).get t n =
      if t = tEndpoint ∧ n = edsName then
        some ⟨"v1", any tEndpoint (.clusterLoadAssignment (endpoints ip))⟩
      else if t = tCluster ∧ n = cdsName then
        some ⟨"v1", any tCluster (.cluster cluster)⟩
      else if t = tRoute ∧ n = rdsName then
        some ⟨"v1", any tRoute (.routeConfiguration routeConfig)⟩
      else if t = tListener ∧ n = ldsName then
        some ⟨"v1", any tListener (.listener listener)⟩
      else none := by
  simp only [build, get_put]
  simp [Snapshot.get]

/-- What the snapshot holds is in its catalogue, all of it at the first version. -/
theorem build_held {ip t n : String} {e : ResourceEntry} (held : (build ip).get t n = some e) :
    (t, n) ∈ catalogue ∧ e.version = "v1" := by
  rw [build_get] at held
  simp only [catalogue, List.mem_cons, Prod.mk.injEq, List.not_mem_nil, or_false]
  split_ifs at held <;> simp_all only [true_or, or_true, true_and, and_self, Option.some.injEq] <;>
    simp [← held]

/- The streams -/

structure Control where
  advertised : Watch Snapshot

def startup (upstreamIp : String) : Control := ⟨.channel (build upstreamIp)⟩

/-- A client opens its stream with whatever it holds already. -/
inductive Call where
  | openStream : Cache → Call

abbrev Act := LoopAct

def stepStream (w : Control) : AdsStream → Phase → Act → Option AdsStream :=
  stepLoop globNames w.advertised

def server : Program Control AdsStream Call Act where
  spawn
    | w, .openStream cache => (w, .opened w.advertised cache)
  step w s a := (stepStream w s s.phase a).map fun s' => (w, s')

abbrev State := System Control AdsStream
abbrev Step := Event Call Act

def start (upstreamIp : String) : State := ⟨startup upstreamIp, []⟩

abbrev StreamStep (w : Control) : AdsStream → Act → AdsStream → Prop :=
  LoopStep globNames w.advertised

theorem task_step {w w' : Control} {s s' : AdsStream} {a : Act}
    (h : server.step w s a = some (w', s')) : w' = w ∧ StreamStep w s a s' := by
  obtain ⟨s₁, moved, eq⟩ := Option.map_eq_some_iff.mp h
  cases eq
  exact ⟨rfl, loop_step moved⟩

end XdstpServer
