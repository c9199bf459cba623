import XdsControlPlane.DeltaSubscriptions

/-!
What the client ends up holding. The stream's ledger is its picture of the
client's cache, and a name is skipped when the ledger has the snapshot's
version. The picture is wrong in two cases: the client has deleted a resource
it unsubscribed from, which the ledger never forgets; and a version reported
by a client of another run names another body.
-/
namespace DeltaClients
open ExecutableRuns KeyedMaps IncrementalSync EnvoyMessages DeltaSnapshots DeltaStream
open DeltaSubscriptions

variable {sel : Selection}

/- One response -/

/-- The difference that the stream would send for the type. -/
def Session.owed (sel : Selection) (snap : Snapshot) (ss : Session) (typeUrl : String) :
    Delta String ResourceEntry := deltaOf (sendDelta sel typeUrl snap ss.stream).2

def Mentions (d : Delta String ResourceEntry) (n : String) : Prop :=
  n ∈ d.upserts.map Prod.fst ∨ n ∈ d.removals

theorem owed_bridges (sel : Selection) (snap : Snapshot) (ss : Session) (typeUrl : String) :
    (Session.owed sel snap ss typeUrl).Bridges
      (fun n => sel.stillWanted (ss.stream.sub typeUrl) n) (snap.get typeUrl)
      ResourceEntry.version (ss.stream.ledger typeUrl) :=
  (send_delta_spec sel typeUrl snap ss.stream).bridges

theorem session_ledger (sel : Selection) (snap : Snapshot) (ss : Session) (typeUrl t n : String) :
    (ss.send sel snap typeUrl).stream.ledger t n =
      if t = typeUrl then ((Session.owed sel snap ss typeUrl).relabel ResourceEntry.version).apply
        (ss.stream.ledger typeUrl) n
      else ss.stream.ledger t n := send_ledger sel snap ss.stream typeUrl t n

theorem session_cache (sel : Selection) (snap : Snapshot) (ss : Session) (typeUrl t n : String) :
    (ss.send sel snap typeUrl).cache t n =
      if t = typeUrl then (Session.owed sel snap ss typeUrl).apply (ss.cache typeUrl) n
      else ss.cache t n := send_receive sel snap ss.stream ss.cache typeUrl t n

theorem send_dropped (sel : Selection) (snap : Snapshot) (ss : Session) (typeUrl t n : String) :
    (ss.send sel snap typeUrl).dropped t n ↔
      ss.dropped t n ∧ ¬ (t = typeUrl ∧ Mentions (Session.owed sel snap ss typeUrl) n) := by
  simp only [Session.send, Session.owed, Mentions, Bool.and_eq_true, Bool.not_eq_true',
    decide_eq_false_iff_not]

/- The ledger against the cache -/

/-- The ledger is right about every name the client has not dropped. -/
structure LedgerOk (ss : Session) : Prop where
  subs : ∀ t, ss.stream.subs.lookup t = subscribed ss.requests t
  kept : ∀ t n, ¬ ss.dropped t n →
    ss.stream.ledger t n = (ss.cache t n).map ResourceEntry.version
  gone : ∀ t n, ss.dropped t n → ss.cache t n = none

/-- A subscription changes hands without versions reported and without an error. -/
def Plain (_ : Session) : Stimulus → Prop
  | .request r _ => ¬ r.IsNack ∧ r.initialResourceVersions = ∅
  | .changed _ _ => True

theorem ledger_ok_send (snap : Snapshot) {ss : Session} {typeUrl : String}
    (known : (ss.stream.subs.lookup typeUrl).isSome) (ok : LedgerOk ss) :
    LedgerOk (ss.send sel snap typeUrl) := by
  have bridges := owed_bridges sel snap ss typeUrl
  constructor
  case subs => exact fun t => (send_subs snap ss known t).trans (ok.subs t)
  case kept =>
    intro t n fresh
    rw [send_dropped] at fresh
    rw [session_ledger, session_cache]
    by_cases same : t = typeUrl
    · subst same
      simp only [if_true]
      rw [← apply_relabel]
      by_cases mentioned : Mentions (Session.owed sel snap ss t) n
      · rw [Mentions, ← relabel_names _ ResourceEntry.version] at mentioned
        have distinct := bridges.distinct
        rw [← relabel_names _ ResourceEntry.version] at distinct
        exact apply_mentioned distinct mentioned _ _
      · have kept : ¬ ss.dropped t n := fun dropped => fresh ⟨dropped, fun both => mentioned both.2⟩
        simp only [Mentions, not_or] at mentioned
        have unsent := relabel_names (Session.owed sel snap ss t) ResourceEntry.version ▸ mentioned.1
        rw [apply_untouched unsent mentioned.2, apply_untouched unsent mentioned.2, ok.kept t n kept]
    · simp only [if_neg same]
      exact ok.kept t n fun dropped => fresh ⟨dropped, fun both => same both.1⟩
  case gone =>
    intro t n dropped
    obtain ⟨before, unmentioned⟩ := (send_dropped sel snap ss typeUrl t n).mp dropped
    rw [session_cache]
    split
    · rename_i same
      subst same
      simp only [Mentions, true_and, not_or] at unmentioned
      rw [apply_untouched unmentioned.1 unmentioned.2]
      exact ok.gone t n before
    · exact ok.gone t n before

theorem ledger_ok_sends (snap : Snapshot) {order : List String} {ss : Session}
    (known : ∀ t ∈ order, (ss.stream.subs.lookup t).isSome) (ok : LedgerOk ss) :
    LedgerOk (order.foldl (Session.send sel snap) ss) := by
  induction order generalizing ss with
  | nil => exact ok
  | cons typeUrl order ih =>
    have here := known typeUrl List.mem_cons_self
    refine ih (fun t later => ?_) (ledger_ok_send snap here ok)
    rw [send_subs snap ss here]
    exact known t (List.mem_cons_of_mem _ later)

theorem take_cache (ss : Session) (r : DeltaDiscoveryRequest) (t n : String) :
    (ss.take sel r).cache t n =
      if t = r.typeUrl ∧ ss.loses sel r n then none else ss.cache t n := rfl

theorem take_dropped (ss : Session) (r : DeltaDiscoveryRequest) (t n : String) :
    (ss.take sel r).dropped t n ↔
      (t = r.typeUrl ∧ ss.loses sel r n ∧ (ss.cache t n).isSome) ∨ ss.dropped t n := by
  simp only [Session.take, Bool.or_eq_true, decide_eq_true_eq]

theorem take_ledger (ss : Session) {r : DeltaDiscoveryRequest} (clean : ¬ r.IsNack)
    (fresh : r.initialResourceVersions = ∅) (t n : String) :
    (ss.take sel r).stream.ledger t n = ss.stream.ledger t n := by
  rw [take_stream ss clean, record_ledger, fresh, AList.lookup_empty, Option.none_or, ite_self]

theorem ledger_ok_take {ss : Session} {r : DeltaDiscoveryRequest} (clean : ¬ r.IsNack)
    (fresh : r.initialResourceVersions = ∅) (ok : LedgerOk ss) : LedgerOk (ss.take sel r) := by
  constructor
  case subs =>
    intro t
    rw [take_stream ss clean, record_subs, ok.subs, ok.subs]
    exact (subscribed_append ss.requests r t).symm
  case kept =>
    intro t n kept
    rw [take_dropped, not_or] at kept
    rw [take_ledger ss clean fresh, take_cache, ok.kept t n kept.2]
    split
    · rename_i lost
      have absent : ss.cache t n = none :=
        Option.not_isSome_iff_eq_none.mp fun held => kept.1 ⟨lost.1, lost.2, held⟩
      rw [absent]
    · rfl
  case gone =>
    intro t n dropped
    rw [take_cache]
    split
    · rfl
    · rename_i stays
      rcases (take_dropped ss r t n).mp dropped with ⟨same, lost, _⟩ | before
      · exact absurd ⟨same, lost⟩ stays
      · exact ok.gone t n before

theorem take_known (ss : Session) {r : DeltaDiscoveryRequest} (clean : ¬ r.IsNack) :
    ((ss.take sel r).stream.subs.lookup r.typeUrl).isSome := by
  rw [take_stream ss clean, record_subs, if_pos rfl]
  rfl

theorem ledger_ok_step {ss ss' : Session} {e : Stimulus} (ok : LedgerOk ss) (plain : Plain ss e)
    (h : ss.step sel e = some ss') : LedgerOk ss' := by
  cases e with
  | changed snap order =>
    obtain ⟨visits, rfl⟩ := step_changed h
    exact ledger_ok_sends snap (fun t => (held_iff_visited visits t).mpr) ok
  | request r snap =>
    rw [step_clean ss plain.1] at h
    cases h
    exact ledger_ok_send snap (take_known ss plain.1) (ledger_ok_take plain.1 plain.2 ok)

theorem opened_ledger_ok : LedgerOk (.opened fun _ _ => none) :=
  ⟨fun _ => rfl, fun _ _ _ => rfl, fun _ _ _ => rfl⟩

/- Re-subscription -/

def wantedWith (sel : Selection) (ss : Session) (r : DeltaDiscoveryRequest) (n : String) : Bool :=
  sel.stillWanted (TypeSub.update r (subscribed ss.requests r.typeUrl)) n

/-- Once the request is processed, the client holds all of its type that it wants
    and the snapshot has, at the snapshot's version. -/
def Served (sel : Selection) (ss : Session) : Stimulus → Prop
  | .request r snap => ∀ ss', ss.step sel (.request r snap) = some ss' →
      ∀ n, wantedWith sel ss r n → ∀ e, snap.get r.typeUrl n = some e →
        ∃ held, ss'.cache r.typeUrl n = some held ∧ held.version = e.version
  | .changed _ _ => True

/-- No dropped name is wanted again at the version the ledger has for it. -/
def NoUnchangedReturn (sel : Selection) (ss : Session) : Stimulus → Prop
  | .request r snap => ∀ n, wantedWith sel ss r n → ss.dropped r.typeUrl n →
      ∀ e, snap.get r.typeUrl n = some e → ss.stream.ledger r.typeUrl n ≠ some e.version
  | .changed _ _ => True

theorem take_sub (ss : Session) {r : DeltaDiscoveryRequest} (clean : ¬ r.IsNack)
    (subs : ss.stream.subs.lookup r.typeUrl = subscribed ss.requests r.typeUrl) :
    (ss.take sel r).stream.sub r.typeUrl =
      TypeSub.update r (subscribed ss.requests r.typeUrl) := by
  rw [StreamVars.sub, entryOr, take_stream ss clean, record_subs, if_pos rfl, subs, Option.getD_some]

/-- A wanted name ends up as in the snapshot unless the ledger says it is. -/
theorem request_cache {ss : Session} {r : DeltaDiscoveryRequest} (clean : ¬ r.IsNack)
    (subs : ss.stream.subs.lookup r.typeUrl = subscribed ss.requests r.typeUrl)
    (snap : Snapshot) {n : String} (wanted : wantedWith sel ss r n) :
    ((ss.take sel r).send sel snap r.typeUrl).cache r.typeUrl n =
      if (ss.take sel r).stream.ledger r.typeUrl n =
          (snap.get r.typeUrl n).map ResourceEntry.version then ss.cache r.typeUrl n
      else snap.get r.typeUrl n := by
  have bridges := owed_bridges sel snap (ss.take sel r) r.typeUrl
  rw [take_sub ss clean subs] at bridges
  rw [session_cache, if_pos rfl]
  split
  · rename_i current
    have kept : ¬ ss.loses sel r n := by
      simp only [Session.loses, Bool.and_eq_true, Bool.not_eq_true', not_and]
      intro _
      simpa [wantedWith] using wanted
    rw [apply_current bridges current, take_cache, if_neg fun both => kept both.2]
  · rename_i stale
    exact apply_stale bridges wanted stale _

theorem served_step {ss : Session} {e : Stimulus} (ok : LedgerOk ss) (plain : Plain ss e) :
    Served sel ss e ↔ NoUnchangedReturn sel ss e := by
  cases e with
  | changed snap order => exact Iff.rfl
  | request r snap =>
    obtain ⟨clean, fresh⟩ := plain
    have cache : ∀ n, wantedWith sel ss r n → ∀ e, snap.get r.typeUrl n = some e →
        ((ss.take sel r).send sel snap r.typeUrl).cache r.typeUrl n =
          if ss.stream.ledger r.typeUrl n = some e.version then ss.cache r.typeUrl n
          else some e := by
      intro n wanted e held
      rw [request_cache clean (ok.subs r.typeUrl) snap wanted, take_ledger ss clean fresh, held,
        Option.map_some]
    constructor
    · intro served n wanted dropped e held current
      obtain ⟨body, here, _⟩ := served _ (step_clean ss clean snap) n wanted e held
      rw [cache n wanted e held, if_pos current, ok.gone r.typeUrl n dropped] at here
      cases here
    · intro noReturn ss' h n wanted e held
      rw [step_clean ss clean] at h
      cases h
      rw [cache n wanted e held]
      split
      · rename_i current
        have kept : ¬ ss.dropped r.typeUrl n := fun dropped => noReturn n wanted dropped e held current
        rw [ok.kept r.typeUrl n kept] at current
        obtain ⟨body, here, version⟩ := Option.map_eq_some_iff.mp current
        exact ⟨body, here, version⟩
      · exact ⟨e, rfl, rfl⟩

/-- For either chapter and every run of requests and publications: each request
    leaves the client with all it wants, if and only if no request makes it want
    again, unchanged, what it has deleted. -/
theorem served_iff_no_unchanged_return (sel : Selection) (es : List Stimulus)
    (plain : Along (Session.step sel) Plain (.opened fun _ _ => none) es) :
    Along (Session.step sel) (Served sel) (.opened fun _ _ => none) es ↔
      Along (Session.step sel) (NoUnchangedReturn sel) (.opened fun _ _ => none) es :=
  along_congr_within (fun _ _ _ ok plain h => ledger_ok_step ok plain h)
    (fun _ _ _ ok plain _ => served_step ok plain) plain opened_ledger_ok

def routeRequest (subscribe unsubscribe : List String) (nonce : String) : DeltaDiscoveryRequest :=
  ⟨tRoute, subscribe, unsubscribe, ∅, nonce, none⟩

def takeAndGiveUp : List Stimulus :=
  [.request (routeRequest ["primary_route"] [] "") (.build 1 "10.0.0.1"),
    .request (routeRequest [] ["primary_route"] "rds-1") (.build 1 "10.0.0.1")]

def askAgain : Stimulus :=
  .request (routeRequest ["primary_route"] [] "rds-1") (.build 1 "10.0.0.1")

theorem resubscription_plain : Along (Session.step exactNames) Plain (.opened fun _ _ => none)
    (takeAndGiveUp ++ [askAgain]) :=
  fun _ _ => ⟨⟨nofun, rfl⟩, fun _ _ => ⟨⟨nofun, rfl⟩, fun _ _ => ⟨⟨nofun, rfl⟩, trivial⟩⟩⟩

theorem served_checked_on_resubscription :
    Along (Session.step exactNames) (Served exactNames) (.opened fun _ _ => none)
        (takeAndGiveUp ++ [askAgain]) ↔
      Along (Session.step exactNames) (NoUnchangedReturn exactNames) (.opened fun _ _ => none)
        (takeAndGiveUp ++ [askAgain]) :=
  served_iff_no_unchanged_return exactNames (takeAndGiveUp ++ [askAgain]) resubscription_plain

theorem resubscription_leaves_client_empty :
    Along (Session.step exactNames) Plain (.opened fun _ _ => none) (takeAndGiveUp ++ [askAgain]) ∧
    ¬ Along (Session.step exactNames) (Served exactNames) (.opened fun _ _ => none)
      (takeAndGiveUp ++ [askAgain]) := by
  refine ⟨resubscription_plain, fun served => ?_⟩
  obtain ⟨ss, ss', run, last, wanted, gone⟩ :
      ∃ ss ss', exec (Session.step exactNames) (.opened fun _ _ => none) takeAndGiveUp = some ss ∧
        ss.step exactNames askAgain = some ss' ∧
        wantedWith exactNames ss (routeRequest ["primary_route"] [] "rds-1") "primary_route" ∧
        ss'.cache tRoute "primary_route" = none := ⟨_, _, rfl, rfl, by decide, by decide⟩
  obtain ⟨held, here, _⟩ :=
    along_at takeAndGiveUp [] served run last ss' last "primary_route" wanted _ rfl
  cases gone.symm.trans here

/- Reconnecting to another run -/

def asks (r : DeltaDiscoveryRequest) (n : String) : Bool :=
  exactNames.stillWanted (TypeSub.update r none) n

/-- One request for each type, with the versions of everything the client holds,
    from a client that holds of what it asks for just what `first` has. -/
structure Reconnects (first : Snapshot) (cache : Cache) (rs : List DeltaDiscoveryRequest) : Prop where
  clean : ∀ r ∈ rs, ¬ r.IsNack
  oneEach : (rs.map (·.typeUrl)).Nodup
  inSync : ∀ r ∈ rs, ∀ n, asks r n → cache r.typeUrl n = first.get r.typeUrl n
  reported : ∀ r ∈ rs, ∀ n, r.initialResourceVersions.lookup n =
    (cache r.typeUrl n).map ResourceEntry.version

structure Awaits (cache : Cache) (ss : Session) (t : String) : Prop where
  unknown : ss.stream.subs.lookup t = none
  unasked : subscribed ss.requests t = none
  unsent : ∀ n, ss.stream.ledger t n = none
  kept : ss.cache t = cache t

theorem request_other {ss : Session} {r : DeltaDiscoveryRequest} (clean : ¬ r.IsNack)
    (snap : Snapshot) {t : String} (other : t ≠ r.typeUrl) :
    ((ss.take sel r).send sel snap r.typeUrl).cache t = ss.cache t ∧
      ∀ cache, Awaits cache ss t → Awaits cache ((ss.take sel r).send sel snap r.typeUrl) t := by
  have cache : ((ss.take sel r).send sel snap r.typeUrl).cache t = ss.cache t := by
    funext n
    rw [session_cache, if_neg other, take_cache, if_neg fun both => other both.1]
  refine ⟨cache, fun held awaits => ⟨?_, ?_, fun n => ?_, cache.trans awaits.kept⟩⟩
  · rw [send_subs snap _ (take_known ss clean), take_stream ss clean, record_subs, if_neg other]
    exact awaits.unknown
  · exact (subscribed_append ss.requests r t).trans ((if_neg other).trans awaits.unasked)
  · rw [session_ledger, if_neg other, take_stream ss clean, record_ledger, if_neg other]
    exact awaits.unsent n

/-- The answer to the first request for a type: what the client reported at the
    snapshot's version stays, and everything else comes from the snapshot. -/
theorem first_answer {cache : Cache} {ss : Session} {r : DeltaDiscoveryRequest}
    (clean : ¬ r.IsNack) (awaits : Awaits cache ss r.typeUrl) (snap : Snapshot) {n : String}
    (asked : asks r n) :
    ((ss.take exactNames r).send exactNames snap r.typeUrl).cache r.typeUrl n =
      if r.initialResourceVersions.lookup n = (snap.get r.typeUrl n).map ResourceEntry.version then
        cache r.typeUrl n
      else snap.get r.typeUrl n := by
  have subs : ss.stream.subs.lookup r.typeUrl = subscribed ss.requests r.typeUrl := by
    rw [awaits.unknown, awaits.unasked]
  have wanted : wantedWith exactNames ss r n := by
    rw [wantedWith, awaits.unasked]
    exact asked
  rw [request_cache clean subs snap wanted, take_stream ss clean, record_ledger, if_pos rfl,
    awaits.unsent, Option.or_none, awaits.kept]

theorem reconnect_other {snap : Snapshot} {rs : List DeltaDiscoveryRequest} {ss ss' : Session}
    (clean : ∀ r ∈ rs, ¬ r.IsNack)
    (run : exec (Session.step sel) ss (rs.map fun r => .request r snap) = some ss') {t : String}
    (other : t ∉ rs.map (·.typeUrl)) : ss'.cache t = ss.cache t := by
  induction rs generalizing ss with
  | nil => cases run; rfl
  | cons r rs ih =>
    obtain ⟨mid, first, rest⟩ := exec_cons_some.mp run
    have cleanHere := clean r List.mem_cons_self
    rw [step_clean ss cleanHere] at first
    cases first
    simp only [List.map_cons, List.mem_cons, not_or] at other
    rw [ih (fun q later => clean q (List.mem_cons_of_mem _ later)) rest other.2]
    exact (request_other cleanHere snap other.1).1

theorem reconnect_cache {snap : Snapshot} {cache : Cache} {rs : List DeltaDiscoveryRequest}
    {ss ss' : Session} (clean : ∀ r ∈ rs, ¬ r.IsNack) (oneEach : (rs.map (·.typeUrl)).Nodup)
    (awaits : ∀ r ∈ rs, Awaits cache ss r.typeUrl)
    (run : exec (Session.step exactNames) ss (rs.map fun r => .request r snap) = some ss') :
    ∀ r ∈ rs, ∀ n, asks r n → ss'.cache r.typeUrl n =
      if r.initialResourceVersions.lookup n = (snap.get r.typeUrl n).map ResourceEntry.version then
        cache r.typeUrl n
      else snap.get r.typeUrl n := by
  induction rs generalizing ss with
  | nil => nofun
  | cons r rs ih =>
    obtain ⟨mid, first, rest⟩ := exec_cons_some.mp run
    have cleanHere := clean r List.mem_cons_self
    have cleanLater : ∀ q ∈ rs, ¬ q.IsNack := fun q later => clean q (List.mem_cons_of_mem _ later)
    rw [step_clean ss cleanHere] at first
    cases first
    simp only [List.map_cons, List.nodup_cons] at oneEach
    intro q member n asked
    rcases List.mem_cons.mp member with rfl | later
    · rw [reconnect_other cleanLater rest oneEach.1]
      exact first_answer cleanHere (awaits q member) snap asked
    · refine ih cleanLater oneEach.2 (fun p laterP => ?_) rest q later n asked
      have other : p.typeUrl ≠ r.typeUrl := fun same =>
        oneEach.1 (same ▸ List.mem_map_of_mem laterP)
      exact (request_other cleanHere snap other).2 cache (awaits p (List.mem_cons_of_mem _ laterP))

/-- Over any two runs: a client in sync with the first ends up, on a stream to
    the second, with the second's bodies, if and only if the upstream address is
    the same or the client does not ask for the endpoint. -/
theorem reconnect_bodies_iff {r₁ r₂ : UInt64} {ip₁ ip₂ : String} {cache : Cache}
    {rs : List DeltaDiscoveryRequest} {ss : Session}
    (reconnects : Reconnects (.build r₁ ip₁) cache rs)
    (run : exec (Session.step exactNames) (.opened cache)
      (rs.map fun r => .request r (.build r₂ ip₂)) = some ss) :
    (∀ r ∈ rs, ∀ n, asks r n →
      ss.cache r.typeUrl n = (Snapshot.build r₂ ip₂).get r.typeUrl n) ↔
    (ip₁ = ip₂ ∨ ∀ r ∈ rs, r.typeUrl = tEndpoint → ¬ asks r clusterName) := by
  have awaits : ∀ r ∈ rs, Awaits cache (.opened cache) r.typeUrl := fun _ _ =>
    ⟨rfl, rfl, fun _ => rfl, rfl⟩
  have ends : ∀ r ∈ rs, ∀ n, asks r n → ss.cache r.typeUrl n =
      if ((Snapshot.build r₁ ip₁).get r.typeUrl n).map ResourceEntry.version =
          ((Snapshot.build r₂ ip₂).get r.typeUrl n).map ResourceEntry.version then
        (Snapshot.build r₁ ip₁).get r.typeUrl n
      else (Snapshot.build r₂ ip₂).get r.typeUrl n := by
    intro r member n asked
    rw [← reconnects.inSync r member n asked, ← reconnects.reported r member n]
    exact reconnect_cache reconnects.clean reconnects.oneEach awaits run r member n asked
  constructor
  · intro current
    by_contra both
    simp only [not_or, not_forall, not_not] at both
    obtain ⟨moved, r, member, isEndpoint, asked⟩ := both
    have ended := ends r member clusterName asked
    rw [current r member clusterName asked, isEndpoint, build_endpoint, build_endpoint,
      Option.map_some, Option.map_some, if_pos rfl] at ended
    exact moved (endpoint_body_injective (congrArg ResourceEntry.body (Option.some.inj ended)).symm)
  · intro same r member n asked
    rw [ends r member n asked]
    split
    · rename_i sameVersion
      refine build_same_version sameVersion (same.imp_right fun notAsked endpoint => ?_)
      exact notAsked r member endpoint.1 (endpoint.2 ▸ asked)
    · rfl

def endpointRequest : DeltaDiscoveryRequest :=
  ⟨tEndpoint, ["upstream_cluster"], [], (∅ : HashMap String String).insert "upstream_cluster" "v1",
    "", none⟩

def endpointHeld (ip : String) : Cache := fun t n =>
  if t = tEndpoint ∧ n = "upstream_cluster" then (Snapshot.build 1 ip).get t n else none

theorem endpoint_reconnects (ip : String) :
    Reconnects (.build 1 ip) (endpointHeld ip) [endpointRequest] := by
  refine ⟨by simp [endpointRequest], by simp, fun r member n asked => ?_, fun r member n => ?_⟩
  · rcases List.mem_singleton.mp member with rfl
    have named : n = "upstream_cluster" ∨ n ∈ (default : TypeSub).names := by
      simpa [asks, exactNames, TypeSub.update, endpointRequest, TypeSub.subscribe] using asked
    rw [endpointHeld, if_pos ⟨rfl, named.resolve_right (not_mem_empty n)⟩]
  · rcases List.mem_singleton.mp member with rfl
    rw [endpointHeld]
    split
    · rename_i both
      rw [both.2]
      exact (congrArg (Option.map ResourceEntry.version) (build_endpoint 1 ip)).symm
    · rename_i other
      exact (lookup_insert ∅ n "upstream_cluster" "v1").trans (if_neg fun eq => other ⟨rfl, eq⟩)

theorem reconnect_bodies_checked :
    ∃ ss, exec (Session.step exactNames) (.opened (endpointHeld "10.0.0.1"))
        ([endpointRequest].map fun r => .request r (.build 7 "10.0.0.1")) = some ss ∧
      ∀ r ∈ [endpointRequest], ∀ n, asks r n →
        ss.cache r.typeUrl n = (Snapshot.build 7 "10.0.0.1").get r.typeUrl n := by
  obtain ⟨ss, run⟩ : ∃ ss, exec (Session.step exactNames) (.opened (endpointHeld "10.0.0.1"))
      ([endpointRequest].map fun r => .request r (.build 7 "10.0.0.1")) = some ss := ⟨_, rfl⟩
  exact ⟨ss, run, (reconnect_bodies_iff (endpoint_reconnects "10.0.0.1") run).mpr (Or.inl rfl)⟩

theorem moved_upstream_goes_unnoticed :
    Reconnects (.build 1 "10.0.0.1") (endpointHeld "10.0.0.1") [endpointRequest] ∧
    ∃ ss, exec (Session.step exactNames) (.opened (endpointHeld "10.0.0.1"))
        ([endpointRequest].map fun r => .request r (.build 1 "10.0.0.2")) = some ss ∧
      asks endpointRequest clusterName ∧
      ss.cache tEndpoint clusterName ≠ (Snapshot.build 1 "10.0.0.2").get tEndpoint clusterName :=
  ⟨endpoint_reconnects "10.0.0.1", _, rfl, by decide, by decide⟩

end DeltaClients
