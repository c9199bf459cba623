import XdsControlPlane.EnvoyMessages

/-!
Chapters 4 and 5, `snapshot.rs`: every resource carries its own version, in a
map from type to name to entry. `build` is Chapter 4's: a bump moves the
version and the body of the one RouteConfiguration. Its `Result` is always
`Ok`, so the builders are total here.
-/
namespace DeltaSnapshots
open KeyedMaps EnvoyMessages

structure ResourceEntry where
  version : String
  body : Any
  deriving DecidableEq, Repr

abbrev ByType := HashMap String (HashMap String ResourceEntry)

structure Snapshot where
  systemVersion : String
  byType : ByType

def Snapshot.names (s : Snapshot) (typeUrl : String) : List String :=
  ((s.byType.lookup typeUrl).map fun m => m.keys).getD []

def startsWith (s start : String) : Bool := start.toList.isPrefixOf s.toList

def Snapshot.namesWithPrefix (s : Snapshot) (typeUrl start : String) : List String :=
  ((s.byType.lookup typeUrl).map fun m => m.keys.filter fun n => startsWith n start).getD []

def Snapshot.get (s : Snapshot) (typeUrl name : String) : Option ResourceEntry :=
  (s.byType.lookup typeUrl).bind fun m => m.lookup name

def put (byType : ByType) (typeUrl name version : String) (msg : Message) : ByType :=
  byType.insert typeUrl ((entryOr byType typeUrl ∅).insert name ⟨version, any typeUrl msg⟩)

def listener : Listener := listenerWith "ingress_http" listenerName routeName

def routeConfig (routeVersion : UInt64) : RouteConfiguration :=
  routeConfigWith routeName clusterName [⟨"x-config-version", versionLabel routeVersion⟩]

def cluster : Cluster := clusterWith clusterName ""

def endpoints (ip : String) : ClusterLoadAssignment :=
  endpointsWith clusterName [⟨⟨ip, upstreamPort⟩, none⟩]

def Snapshot.build (routeVersion : UInt64) (upstreamIp : String) : Snapshot :=
  let byType := put ∅ tListener listenerName "v1" (.listener listener)
  let byType := put byType tCluster clusterName "v1" (.cluster cluster)
  let byType := put byType tEndpoint clusterName "v1" (.clusterLoadAssignment (endpoints upstreamIp))
  let rv := versionLabel routeVersion
  let byType := put byType tRoute routeName rv (.routeConfiguration (routeConfig routeVersion))
  { systemVersion := "sys-" ++ toString routeVersion.toNat, byType := byType }

theorem names_nodup (s : Snapshot) (typeUrl : String) : (s.names typeUrl).Nodup := by
  unfold Snapshot.names
  cases s.byType.lookup typeUrl with
  | none => exact List.nodup_nil
  | some m => exact m.keys_nodup

theorem mem_names {s : Snapshot} {typeUrl name : String} :
    name ∈ s.names typeUrl ↔ (s.get typeUrl name).isSome := by
  unfold Snapshot.names Snapshot.get
  cases s.byType.lookup typeUrl with
  | none => simp
  | some m => simp [AList.lookup_isSome, AList.mem_keys]

theorem mem_prefixed_names {s : Snapshot} {typeUrl start name : String} :
    name ∈ s.namesWithPrefix typeUrl start ↔
      (s.get typeUrl name).isSome ∧ startsWith name start := by
  unfold Snapshot.namesWithPrefix Snapshot.get
  cases s.byType.lookup typeUrl with
  | none => simp
  | some m => simp [AList.lookup_isSome, AList.mem_keys]

/-- `put` stores one resource and moves no other. -/
theorem get_put (byType : ByType) (typeUrl name version : String) (msg : Message)
    (systemVersion t n : String) :
    Snapshot.get ⟨systemVersion, put byType typeUrl name version msg⟩ t n =
      if t = typeUrl ∧ n = name then some ⟨version, any typeUrl msg⟩
      else Snapshot.get ⟨systemVersion, byType⟩ t n := by
  unfold Snapshot.get put
  rw [lookup_insert]
  by_cases sameType : t = typeUrl
  · subst sameType
    simp only [if_pos, Option.bind_some, lookup_insert, true_and, entryOr]
    by_cases sameName : n = name
    · simp only [if_pos sameName]
    · simp only [if_neg sameName]
      cases byType.lookup t with
      | none => simp
      | some m => rfl
  · simp only [sameType, false_and, if_false]

theorem build_get (rv : UInt64) (ip t n : String) :
    (Snapshot.build rv ip).get t n =
      if t = tRoute ∧ n = routeName then
        some ⟨versionLabel rv, any tRoute (.routeConfiguration (routeConfig rv))⟩
      else if t = tEndpoint ∧ n = clusterName then
        some ⟨"v1", any tEndpoint (.clusterLoadAssignment (endpoints ip))⟩
      else if t = tCluster ∧ n = clusterName then
        some ⟨"v1", any tCluster (.cluster cluster)⟩
      else if t = tListener ∧ n = listenerName then
        some ⟨"v1", any tListener (.listener listener)⟩
      else none := by
  simp only [Snapshot.build, get_put]
  simp [Snapshot.get]

/-- Between two built snapshots a version stands for one body, except where the
    upstream address enters: an endpoint is `v1` at any address. -/
theorem build_version_body {r₁ r₂ : UInt64} {ip₁ ip₂ t n : String} {e₁ e₂ : ResourceEntry}
    (first : (Snapshot.build r₁ ip₁).get t n = some e₁)
    (second : (Snapshot.build r₂ ip₂).get t n = some e₂) (sameVersion : e₁.version = e₂.version)
    (address : ip₁ = ip₂ ∨ ¬ (t = tEndpoint ∧ n = clusterName)) : e₁ = e₂ := by
  rw [build_get] at first second
  by_cases route : t = tRoute ∧ n = routeName
  · simp only [if_pos route, Option.some.injEq] at first second
    subst first second
    rw [version_label_injective sameVersion]
  · rw [if_neg route] at first second
    by_cases endpoint : t = tEndpoint ∧ n = clusterName
    · simp only [if_pos endpoint, Option.some.injEq] at first second
      rcases address with same | other
      · rw [← first, ← second, same]
      · exact absurd endpoint other
    · rw [if_neg endpoint] at first second
      exact Option.some.inj (first.symm.trans second)

theorem build_same_version {r₁ r₂ : UInt64} {ip₁ ip₂ t n : String}
    (same : ((Snapshot.build r₁ ip₁).get t n).map ResourceEntry.version =
      ((Snapshot.build r₂ ip₂).get t n).map ResourceEntry.version)
    (address : ip₁ = ip₂ ∨ ¬ (t = tEndpoint ∧ n = clusterName)) :
    (Snapshot.build r₁ ip₁).get t n = (Snapshot.build r₂ ip₂).get t n := by
  cases first : (Snapshot.build r₁ ip₁).get t n with
  | none =>
    rw [first, Option.map_none] at same
    exact (Option.map_eq_none_iff.mp same.symm).symm
  | some e₁ =>
    rw [first, Option.map_some] at same
    obtain ⟨e₂, second, version⟩ := Option.map_eq_some_iff.mp same.symm
    rw [second, build_version_body first second version.symm address]

theorem build_route (rv : UInt64) (ip n : String) :
    (Snapshot.build rv ip).get tRoute n =
      if n = routeName then
        some ⟨versionLabel rv, any tRoute (.routeConfiguration (routeConfig rv))⟩
      else none := by
  have endpoint : ¬ tRoute = tEndpoint := by decide
  have cluster : ¬ tRoute = tCluster := by decide
  have listener : ¬ tRoute = tListener := by decide
  rw [build_get]
  simp only [true_and, endpoint, cluster, listener, false_and, if_false]

theorem build_endpoint (rv : UInt64) (ip : String) :
    (Snapshot.build rv ip).get tEndpoint clusterName =
      some ⟨"v1", any tEndpoint (.clusterLoadAssignment (endpoints ip))⟩ := by
  rw [build_get, if_neg (by decide), if_pos ⟨rfl, rfl⟩]

theorem endpoint_body_injective {ip₁ ip₂ : String}
    (same : any tEndpoint (Message.clusterLoadAssignment (endpoints ip₁)) =
      any tEndpoint (Message.clusterLoadAssignment (endpoints ip₂))) : ip₁ = ip₂ := by
  simpa [any, endpoints, endpointsWith] using same

end DeltaSnapshots
