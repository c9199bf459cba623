import XdsControlPlane.DeltaConvergence
import XdsControlPlane.ConfigWalk

/-!
Chapter 4, forwarding across bumps. A bump gives the route a new version and header and
leaves all references as they are, and every snapshot has the same names. So a client
that has walked the graph once keeps all of it, each resource of some snapshot or
other, and its listener forwards to the upstream at every later moment, also while
a bump is half delivered.
-/
namespace DeltaRouting
open ExecutableRuns SharedCells KeyedMaps EnvoyMessages DeltaSnapshots DeltaStream DeltaServer
  DeltaConvergence ConfigWalk ResourceGraphs

/- What all snapshots have in common -/

/-- Type and name of each resource of a snapshot. -/
def catalogue : List (String × String) :=
  [(tListener, listenerName), (tRoute, routeName), (tCluster, clusterName), (tEndpoint, clusterName)]

/-- The listeners and clusters of the bootstrap's wildcards. -/
def IsRoot (k : String × String) : Prop := k = (tListener, listenerName) ∨ k = (tCluster, clusterName)

theorem listener_refs : references (.listener listener) = [(tRoute, routeName)] := rfl

theorem route_refs (rv : UInt64) :
    references (.routeConfiguration (routeConfig rv)) = [(tCluster, clusterName)] := rfl

theorem cluster_refs : references (.cluster cluster) = [(tEndpoint, clusterName)] := by decide

theorem endpoints_refs (ip : String) : references (.clusterLoadAssignment (endpoints ip)) = [] := rfl

theorem build_same_way (r r' : UInt64) (ip t n : String) :
    ((Snapshot.build r ip).get t n).map way = ((Snapshot.build r' ip).get t n).map way := by
  rw [build_get, build_get]
  split_ifs <;> rfl

section Built
variable (rv : UInt64) (ip : String)

theorem build_listener : (Snapshot.build rv ip).get tListener listenerName =
    some ⟨"v1", any tListener (.listener listener)⟩ := by
  rw [build_get, if_neg (by decide), if_neg (by decide), if_neg (by decide), if_pos ⟨rfl, rfl⟩]

theorem build_cluster : (Snapshot.build rv ip).get tCluster clusterName =
    some ⟨"v1", any tCluster (.cluster cluster)⟩ := by
  rw [build_get, if_neg (by decide), if_neg (by decide), if_pos ⟨rfl, rfl⟩]

theorem build_forwards : forwards (Snapshot.build rv ip).get listenerName = [⟨ip, upstreamPort⟩] :=
  have route := (build_route rv ip routeName).trans (if_pos rfl)
  calc addressesFrom (Snapshot.build rv ip).get 4 (tListener, listenerName)
    _ = addressesFrom (Snapshot.build rv ip).get 3 (tRoute, routeName) :=
      addresses_pass (build_listener rv ip) rfl 3
    _ = addressesFrom (Snapshot.build rv ip).get 2 (tCluster, clusterName) :=
      addresses_pass route rfl 2
    _ = addressesFrom (Snapshot.build rv ip).get 1 (tEndpoint, clusterName) :=
      addresses_pass (build_cluster rv ip) (by decide) 1
    _ = [⟨ip, upstreamPort⟩] := addresses_end (build_endpoint rv ip) rfl 0

/-- A snapshot has no names but these, and has them all. -/
theorem build_names (t n : String) : ((Snapshot.build rv ip).get t n).isSome ↔ (t, n) ∈ catalogue := by
  simp only [catalogue, List.mem_cons, Prod.mk.injEq, List.not_mem_nil, or_false]
  rw [build_get]
  split_ifs <;> simp_all

theorem catalogue_reachable : ∀ k ∈ catalogue, (graph (.build rv ip) IsRoot).Reachable k := by
  have lds : (graph (.build rv ip) IsRoot).Reachable (tListener, listenerName) := .root (Or.inl rfl)
  have cds : (graph (.build rv ip) IsRoot).Reachable (tCluster, clusterName) := .root (Or.inr rfl)
  have rdsNamed : (tRoute, routeName) ∈ references (.listener listener) := by simp [listener_refs]
  have edsNamed : (tEndpoint, clusterName) ∈ references (.cluster cluster) := by simp [cluster_refs]
  intro k member
  simp only [catalogue, List.mem_cons, List.not_mem_nil, or_false] at member
  rcases member with rfl | rfl | rfl | rfl
  · exact lds
  · exact .ref lds (build_listener rv ip) rdsNamed
  · exact cds
  · exact .ref cds (build_cluster rv ip) edsNamed

theorem refs_in_catalogue {t n : String} {e : ResourceEntry}
    (held : (Snapshot.build rv ip).get t n = some e) {k : String × String}
    (named : k ∈ references e.body.value) : k ∈ catalogue := by
  rw [build_get] at held
  split_ifs at held <;> cases held <;>
    simp only [any, listener_refs, route_refs, cluster_refs, endpoints_refs, List.mem_singleton,
      List.not_mem_nil] at named <;> simp [catalogue, named]

theorem reachable_catalogue {k : String × String}
    (reachable : (graph (.build rv ip) IsRoot).Reachable k) : k ∈ catalogue := by
  apply reachable_least ?_ ?_ reachable
  · rintro k (rfl | rfl) <;> simp [catalogue]
  · exact fun j e _ held k named => refs_in_catalogue rv ip held named

end Built

/- What a client keeps -/

/-- What the stream was asked for, and has answered, the client has. -/
def Answered (s : AdsStream) : Prop :=
  s.phase ≠ .closed → ∀ k ∈ catalogue, Wants s k.1 k.2 → (∀ snap, s.phase ≠ .answering k.1 snap) →
    (s.cache k.1 k.2).isSome

/-- The client has the whole graph, each resource of some snapshot or other. -/
def HasAll (s : AdsStream) : Prop := ∀ k ∈ catalogue, (s.cache k.1 k.2).isSome

instance (s : AdsStream) (t n : String) : Decidable (Wants s t n) :=
  inferInstanceAs (Decidable (exactNames.stillWanted (s.vars.sub t) n = true))

section Send
variable {w : Control} {s s' : AdsStream} {typeUrl : String} {snap : Snapshot} {next : Phase}
  {k : String × String}

theorem send_gives (ok : StreamOk w s) (pays : Pays s.phase next typeUrl snap) (member : k ∈ catalogue)
    (isType : k.1 = typeUrl) (wanted : Wants s k.1 k.2) :
    ((s.send exactNames typeUrl snap next).cache k.1 k.2).isSome := by
  subst isType
  obtain ⟨rv, rfl⟩ := ok.sending snap pays.sending
  rw [send_cache_wanted ok (ok.owed k.1 pays.owes) ⟨rv, rfl⟩ wanted]
  exact (build_names rv w.upstreamIp k.1 k.2).mpr member

theorem send_keeps (ok : StreamOk w s) (pays : Pays s.phase next typeUrl snap) (member : k ∈ catalogue)
    (held : (s.cache k.1 k.2).isSome) : ((s.send exactNames typeUrl snap next).cache k.1 k.2).isSome := by
  by_cases isType : k.1 = typeUrl
  · by_cases wanted : Wants s k.1 k.2
    · exact send_gives ok pays member isType wanted
    · subst isType
      rwa [send_cache_unwanted wanted]
  · rwa [send_cache_other isType]

theorem step_keeps (ok : StreamOk w s) {a : Act} (step : StreamStep w s a s') (member : k ∈ catalogue)
    (held : (s.cache k.1 k.2).isSome) : (s'.cache k.1 k.2).isSome := by
  obtain ⟨b, _, step⟩ := step
  cases step with
  | nack r phase isNack => exact held
  | record r phase clean => exact held
  | respond typeUrl snap phase => exact send_keeps ok (respond_pays phase) member held
  | wake order phase behind visits => exact held
  | deliver snap typeUrl todo phase => exact send_keeps ok (deliver_pays phase) member held
  | finish snap phase => exact held
  | close => exact held

theorem step_answered (ok : StreamOk w s) {a : Act} (step : StreamStep w s a s')
    (answered : Answered s) : Answered s' := by
  have notClosed : ∀ {p : Phase}, s.phase = p → p ≠ .closed → s.phase ≠ .closed :=
    fun phase isOpen => phase ▸ isOpen
  intro isOpen k member wanted waits
  obtain ⟨b, _, step⟩ := step
  cases step with
  | nack r phase isNack => exact answered isOpen k member wanted waits
  | record r phase clean =>
    have other : k.1 ≠ r.typeUrl := fun same => waits w.advertised.value (by rw [same])
    apply answered (notClosed phase (by simp)) k member ?_ (by simp [phase])
    rw [Wants, ← record_sub_other other]
    exact wanted
  | respond typeUrl snap phase =>
    have before := (wants_after_send k.1 k.2).mp wanted
    by_cases isType : k.1 = typeUrl
    · exact send_gives ok (respond_pays phase) member isType before
    · rw [send_cache_other isType]
      apply answered (notClosed phase (by simp)) k member before
      rintro snap' atSnap
      exact isType (Phase.answering.inj (atSnap.symm.trans phase)).1
  | wake order phase behind visits =>
    exact answered (notClosed phase (by simp)) k member wanted (by simp [phase])
  | deliver snap typeUrl todo phase =>
    have before := (wants_after_send k.1 k.2).mp wanted
    have held := answered (notClosed phase (by simp)) k member before (by simp [phase])
    exact send_keeps ok (deliver_pays phase) member held
  | finish snap phase =>
    exact answered (notClosed phase (by simp)) k member wanted (by simp [phase])
  | close => exact absurd rfl isOpen

end Send

/- Whole runs -/

theorem stream_next {i : Nat} {st st' : State} {e : Step} (h : server.next st e = some st')
    {s' : AdsStream} (found : st'.tasks[i]? = some (.stream s')) :
    (∃ cache, s' = .opened st.shared.advertised cache ∧ e = .spawn (.openStream cache) ∧
      i = st.tasks.length) ∨
    st.tasks[i]? = some (.stream s') ∨
    ∃ s a, st.tasks[i]? = some (.stream s) ∧ StreamStep st.shared s a s' := by
  rcases next_cases h with ⟨call, rfl, rfl⟩ | ⟨j, a, t, w, t', rfl, before, moved, rfl⟩
  · rcases getElem?_append_one found with old | ⟨last, eq⟩
    · exact Or.inr (Or.inl old)
    · cases call with
      | bump => cases eq
      | openStream cache =>
        cases eq
        exact Or.inl ⟨cache, rfl, rfl, last⟩
  · rcases getElem?_set_cases found with ⟨rfl, eq⟩ | ⟨_, old⟩
    · rcases task_step moved with ⟨snap, rfl, rfl, rfl, rfl⟩ | ⟨s, s', rfl, rfl, rfl, step⟩
      · cases eq
      · cases eq
        exact Or.inr (Or.inr ⟨s, a, before, step⟩)
    · exact Or.inr (Or.inl old)

theorem opened_answered (w : Control) (cache : Cache) : Answered (.opened w.advertised cache) := by
  intro _ k _ wanted
  have nobody : exactNames.stillWanted default k.2 = false := rfl
  simp [Wants, AdsStream.opened, StreamVars.opened, StreamVars.sub, entryOr, nobody] at wanted

theorem next_upstream {st st' : State} {e : Step} (h : server.next st e = some st') :
    st'.shared.upstreamIp = st.shared.upstreamIp := by
  rcases next_cases h with ⟨call, rfl, rfl⟩ | ⟨j, a, t, w, t', rfl, _, moved, rfl⟩
  · cases call <;> rfl
  · rcases task_step moved with ⟨snap, rfl, rfl, rfl, rfl⟩ | ⟨s, s', rfl, rfl, rfl, _⟩ <;> rfl

/-- What holds at all times of the stream `i` of a disciplined client. -/
structure RoutingOk (ip : String) (i : Nat) (st : State) : Prop where
  server : ServerOk i st
  upstream : st.shared.upstreamIp = ip
  answered : ∀ s, st.tasks[i]? = some (.stream s) → Answered s

theorem routing_ok_next {ip : String} {i : Nat} {st st' : State} {e : Step} (ok : RoutingOk ip i st)
    (disciplined : Disciplined i st e) (h : server.next st e = some st') : RoutingOk ip i st' := by
  refine ⟨server_ok_next ok.server disciplined h, (next_upstream h).trans ok.upstream, ?_⟩
  intro s' found
  rcases stream_next h found with ⟨cache, rfl, _⟩ | old | ⟨s, a, before, step⟩
  · exact opened_answered st.shared cache
  · exact ok.answered s' old
  · exact step_answered (ok.server.stream s before) step (ok.answered s before)

theorem has_all_kept {ip : String} {i : Nat} {fs : List Step} {st st' : State}
    (ok : RoutingOk ip i st) (there : i < st.tasks.length)
    (hasAll : ∀ s, st.tasks[i]? = some (.stream s) → HasAll s)
    (disciplined : Along server.next (Disciplined i) st fs)
    (more : exec server.next st fs = some st') :
    RoutingOk ip i st' ∧ ∀ s', st'.tasks[i]? = some (.stream s') → HasAll s' := by
  have kept := along_invariant (I := fun st => i < st.tasks.length ∧ RoutingOk ip i st ∧
    ∀ s, st.tasks[i]? = some (.stream s) → HasAll s) ?_ more disciplined ⟨there, ok, hasAll⟩
  · exact kept.2
  · rintro st e st' ⟨there, ok, hasAll⟩ allowed h
    refine ⟨Nat.lt_of_lt_of_le there (tasks_grow h), routing_ok_next ok allowed h, ?_⟩
    intro s' found
    rcases stream_next h found with ⟨cache, _, _, last⟩ | old | ⟨s, a, before, step⟩
    · omega
    · exact hasAll s' old
    · exact fun k member => step_keeps (ok.server.stream s before) step member (hasAll s before k member)

/- Forwarding -/

/-- The client subscribes to all listeners and clusters. -/
structure Bootstraps (s : AdsStream) : Prop where
  lds : (s.vars.sub tListener).wildcard
  cds : (s.vars.sub tCluster).wildcard

/-- It subscribes to all that the resources it holds refer to. -/
def Follows (s : AdsStream) : Prop :=
  ∀ t n e, s.cache t n = some e → ∀ k ∈ references e.body.value, Wants s k.1 k.2

section Forwarding
variable {w : Control} {s : AdsStream}

theorem held_same_way (ok : StreamOk w s) {k : String × String} (held : (s.cache k.1 k.2).isSome)
    (rv : UInt64) : (s.cache k.1 k.2).map way =
      ((Snapshot.build rv w.upstreamIp).get k.1 k.2).map way := by
  obtain ⟨e, inCache⟩ := Option.isSome_iff_exists.mp held
  obtain ⟨_, ⟨r, rfl⟩, gotten⟩ := ok.held k.1 k.2 e inCache
  rw [inCache, ← gotten]
  exact build_same_way r rv w.upstreamIp k.1 k.2

theorem given_wanted (ok : StreamOk w s) (answered : Answered s) (idle : s.phase = .select)
    {k : String × String} (wanted : Wants s k.1 k.2) (rv : UInt64) :
    (s.cache k.1 k.2).map way = ((Snapshot.build rv w.upstreamIp).get k.1 k.2).map way := by
  by_cases member : k ∈ catalogue
  · have held := answered (by simp [idle]) k member wanted (by simp [idle])
    exact held_same_way ok held rv
  · cases inCache : s.cache k.1 k.2 with
    | some e =>
      rw [← inCache]
      exact held_same_way ok (by simp [inCache]) rv
    | none =>
      have absent : (Snapshot.build rv w.upstreamIp).get k.1 k.2 = none := by
        rwa [← build_names rv w.upstreamIp k.1 k.2, Option.not_isSome_iff_eq_none] at member
      rw [absent]

theorem follows_of_catalogue (ok : StreamOk w s) (wanted : ∀ k ∈ catalogue, Wants s k.1 k.2) :
    Follows s := by
  intro t n e inCache k named
  obtain ⟨_, ⟨rv, rfl⟩, gotten⟩ := ok.held t n e inCache
  exact wanted k (refs_in_catalogue rv w.upstreamIp gotten named)

theorem walked (ok : StreamOk w s) (answered : Answered s) (idle : s.phase = .select)
    (bootstraps : Bootstraps s) (follows : Follows s) :
    (graph (.build 1 w.upstreamIp) IsRoot).Explored (fun k => Wants s k.1 k.2)
      fun k => s.cache k.1 k.2 := by
  constructor
  case given =>
    intro k wanted
    have same := congrArg (Option.map Prod.fst) (given_wanted ok answered idle wanted 1)
    rwa [Option.map_map, Option.map_map] at same
  case roots =>
    rintro k (rfl | rfl)
    · simp [Wants, exactNames, bootstraps.lds]
    · simp [Wants, exactNames, bootstraps.cds]
  case refs => exact fun k e held => follows k.1 k.2 e held

theorem walked_has_all (ok : StreamOk w s) (answered : Answered s) (idle : s.phase = .select)
    (bootstraps : Bootstraps s) (follows : Follows s) : HasAll s := by
  intro k member
  have reachable := catalogue_reachable 1 w.upstreamIp k member
  have wanted := reachable_asked (walked ok answered idle bootstraps follows) reachable
  exact answered (by simp [idle]) k member wanted (by simp [idle])

theorem has_all_forwards (ok : StreamOk w s) (hasAll : HasAll s) :
    forwards s.cache listenerName = [⟨w.upstreamIp, upstreamPort⟩] := by
  have agree : ∀ k, (graph (.build 1 w.upstreamIp) IsRoot).Reachable k →
      (s.cache k.1 k.2).map way = ((Snapshot.build 1 w.upstreamIp).get k.1 k.2).map way := by
    intro k reachable
    exact held_same_way ok (hasAll k (reachable_catalogue 1 w.upstreamIp reachable)) 1
  rw [← build_forwards 1 w.upstreamIp]
  exact forwards_agree agree (Or.inl rfl)

end Forwarding

/- A client that starts from nothing -/

section Fresh
variable {i : Nat} {st st' : State} {e : Step}

/-- Streams are opened with nothing, and no request reports a version or a rejection. -/
def Fresh : Step → Prop
  | .spawn (.openStream cache) => ∀ t n, cache t n = none
  | .step _ (.request r) => r.initialResourceVersions = ∅ ∧ ¬ r.IsNack
  | _ => True

/-- The client has nothing that it did not ask for. -/
def AskedFor (s : AdsStream) : Prop := ∀ t, ¬ Subscribed s t → ∀ n, s.cache t n = none

theorem fresh_reports {w : Control} {s : AdsStream} (ok : StreamOk w s) (askedFor : AskedFor s)
    {r : DeltaDiscoveryRequest} (silent : r.initialResourceVersions = ∅) (clean : ¬ r.IsNack) :
    Reports s r := by
  constructor
  · intro first
    refine ⟨clean, fun n => ?_⟩
    rw [silent, askedFor r.typeUrl ((first_iff ok r).mp first) n]
    rfl
  · exact fun _ => silent

theorem fresh_disciplined_step (ok : ServerOk i st)
    (askedFor : ∀ s, st.tasks[i]? = some (.stream s) → AskedFor s) (fresh : Fresh e) :
    Disciplined i st e := by
  cases e with
  | spawn call =>
    cases call with
    | bump => trivial
    | openStream cache =>
      intro _ t n e inCache
      simp [fresh t n] at inCache
  | step j a =>
    cases a with
    | request r =>
      rintro rfl s found
      exact fresh_reports (ok.stream s found) (askedFor s found) fresh.1 fresh.2
    | _ => trivial

theorem send_asked_for {w : Control} {s : AdsStream} {typeUrl : String} {snap : Snapshot} {next : Phase}
    (ok : StreamOk w s) (pays : Pays s.phase next typeUrl snap) (askedFor : AskedFor s) :
    AskedFor (s.send exactNames typeUrl snap next) := by
  have known := ok.owed typeUrl pays.owes
  intro t unknown n
  rw [subscribed_after_send known] at unknown
  have other : t ≠ typeUrl := fun same => unknown (same ▸ known)
  rw [send_cache_other other]
  exact askedFor t unknown n

theorem step_asked_for {w : Control} {s s' : AdsStream} {a : Act} (ok : StreamOk w s)
    (step : StreamStep w s a s') (askedFor : AskedFor s) : AskedFor s' := by
  obtain ⟨b, _, step⟩ := step
  cases step with
  | nack r phase isNack => exact askedFor
  | record r phase clean =>
    intro t unknown n
    apply askedFor t
    intro known
    apply unknown
    change ((s.vars.record r).subs.lookup t).isSome
    rw [record_subs]
    split
    · rfl
    · exact known
  | respond typeUrl snap phase => exact send_asked_for ok (respond_pays phase) askedFor
  | wake order phase behind visits => exact askedFor
  | deliver snap typeUrl todo phase => exact send_asked_for ok (deliver_pays phase) askedFor
  | finish snap phase => exact askedFor
  | close => exact askedFor

theorem fresh_disciplined (ip : String) (i : Nat) {es : List Step} (fresh : ∀ e ∈ es, Fresh e) :
    Along server.next (Disciplined i) (start ip) es := by
  have within : Along server.next (fun _ e => Fresh e) (start ip) es := along_of_mem fresh
  refine (along_congr_within (I := fun st => ServerOk i st ∧
    ∀ s, st.tasks[i]? = some (.stream s) → AskedFor s) ?_ ?_ within
    ⟨start_ok i ip, by simp [start]⟩).mpr within
  · rintro st e st' ⟨ok, askedFor⟩ fresh h
    refine ⟨server_ok_next ok (fresh_disciplined_step ok askedFor fresh) h, ?_⟩
    intro s' found
    rcases stream_next h found with ⟨cache, rfl, opens, _⟩ | old | ⟨s, a, before, step⟩
    · subst opens
      exact fun t _ n => fresh t n
    · exact askedFor s' old
    · exact step_asked_for (ok.stream s before) step (askedFor s before)
  · rintro st e st' ⟨ok, askedFor⟩ fresh _
    exact iff_of_true (fresh_disciplined_step ok askedFor fresh) fresh

end Fresh

/- A run: the walk, then a bump while it is delivered -/

def subscribeTo (typeUrl : String) (names : List String) : DeltaDiscoveryRequest :=
  ⟨typeUrl, names, [], ∅, "", none⟩

def walk : List Step :=
  [.spawn (.openStream fun _ _ => none),
    .step 0 (.request (subscribeTo tCluster [])), .step 0 .respond,
    .step 0 (.request (subscribeTo tEndpoint [clusterName])), .step 0 .respond,
    .step 0 (.request (subscribeTo tListener [])), .step 0 .respond,
    .step 0 (.request (subscribeTo tRoute [routeName])), .step 0 .respond]

/-- Of two bumps the second is published first. The stream has delivered its route when
    the first one is published. -/
def halfDelivered : List Step :=
  [.spawn .bump, .spawn .bump, .step 2 .proceed,
    .step 0 (.wake [tRoute, tCluster, tEndpoint, tListener]), .step 0 .deliver, .step 1 .proceed]

/- Every later moment -/

section Runs
variable {ip : String} {i : Nat} {es fs : List Step} {st st' : State} {s s' : AdsStream}

theorem walk_fresh : ∀ e ∈ walk ++ halfDelivered, Fresh e := by
  simp [walk, halfDelivered, Fresh, subscribeTo]

theorem walk_runs :
    ∃ st s, exec server.next (start "10.0.0.1") walk = some st ∧ st.tasks[0]? = some (.stream s) ∧
      s.phase = .select ∧ Bootstraps s ∧ (∀ k ∈ catalogue, Wants s k.1 k.2) ∧
      ∃ st' s', exec server.next st halfDelivered = some st' ∧ st'.tasks[0]? = some (.stream s') ∧
        s'.receiver.seen ≠ st'.shared.advertised.stamp ∧ s'.phase.owed = [tCluster, tEndpoint, tListener] :=
  ⟨_, _, rfl, rfl, rfl, ⟨by decide, by decide⟩, by decide, _, _, rfl, rfl, by decide, by decide⟩

end Runs

end DeltaRouting
