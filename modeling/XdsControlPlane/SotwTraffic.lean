import XdsControlPlane.SotwConvergence
import XdsControlPlane.SotwAcceptance
import XdsControlPlane.SotwNonces
import XdsControlPlane.SotwStreams
import XdsControlPlane.ConfigWalk

/-!
Chapter 2 from the client's side. Envoy rejects a Listener with an empty `stat_prefix`
and keeps the one it has, so once it has been given all four types its traffic never
stops, whatever is pushed after that. And once it has answered every response that it
rejects, what is advertised is a snapshot that it accepts: its NACKs were rolled
back, and a broken snapshot is published once only.
-/
namespace SotwTraffic
open ExecutableRuns SharedCells KeyedMaps EnvoyMessages SotwSnapshots SotwServer SotwConvergence
  SotwRollback SotwAcceptance ConfigWalk
open DeltaSnapshots (ResourceEntry)
open DeltaStream (Cache)
open SotwStreams (streamOf)

/- The client -/

/-- The constraint that a broken push breaks: a `stat_prefix` of at least one character. -/
def valid : Message → Bool
  | .listener l => l.filterChains.all fun chain =>
      chain.filters.all fun f => f.typedConfig.value.statPrefix ≠ ""
  | _ => true

def accepts (r : DiscoveryResponse) : Bool := r.resources.all fun x => valid x.value

def nameOf : Message → String
  | .listener l => l.name
  | .routeConfiguration rc => rc.name
  | .cluster c => c.name
  | .clusterLoadAssignment cla => cla.clusterName

/-- What the client has: of each type the resources of the last response that it accepts. -/
def held (responses : List DiscoveryResponse) : Cache := fun t n =>
  (responses.find? fun r => r.typeUrl = t ∧ accepts r).bind fun r =>
    (r.resources.find? fun x => nameOf x.value = n).map fun x => ⟨r.versionInfo, x⟩

def types : List String := [tListener, tRoute, tCluster, tEndpoint]

/-- The client was given each type at least once so that it accepts it. -/
def Served (responses : List DiscoveryResponse) : Prop :=
  ∀ t ∈ types, ∃ r ∈ responses, r.typeUrl = t ∧ accepts r

def Faulty (snap : Snapshot) : Prop := ∃ r, snap.buildResponse tListener = some r ∧ accepts r = false

section Rendered
variable {v ip t : String} {broken : Bool} {r : DiscoveryResponse}

/-- Only the Listener of a broken snapshot is rejected. -/
theorem rejected_iff (built : (Snapshot.build v ip broken).buildResponse t = some r) :
    accepts r = false ↔ t = tListener ∧ broken = true := by
  obtain ⟨resources, lookup, rfl⟩ := Option.map_eq_some_iff.mp built
  rw [build_lookup] at lookup
  have endpoint : tEndpoint ≠ tListener := by decide
  have cluster : tCluster ≠ tListener := by decide
  have route : tRoute ≠ tListener := by decide
  split_ifs at lookup with isEndpoint isCluster isRoute isListener <;> cases lookup
  · simp [accepts, any, valid, isEndpoint, endpoint]
  · simp [accepts, any, valid, isCluster, cluster]
  · simp [accepts, any, valid, isRoute, route]
  · cases broken <;> simp [accepts, any, isListener] <;> decide

theorem faulty_iff : Faulty (.build v ip broken) ↔ broken = true := by
  obtain ⟨r, built⟩ : ∃ r, (Snapshot.build v ip broken).buildResponse tListener = some r := by
    rw [← Option.isSome_iff_exists, build_holds_iff]
    exact List.mem_cons_self
  constructor
  · rintro ⟨r', built', rejected⟩
    exact ((rejected_iff built').mp rejected).2
  · exact fun isBroken => ⟨r, built, (rejected_iff built).mpr ⟨rfl, isBroken⟩⟩

theorem good_faultless (v ip : String) : ¬ Faulty (.good v ip) := by
  rw [Snapshot.good, faulty_iff]
  simp

end Rendered

/- What the client has, it keeps -/

section Serving
variable {ip t : String} {rs rs' : List DiscoveryResponse} {w : World}

theorem served_mono (served : Served rs) (grows : rs ⊆ rs') : Served rs' := by
  intro t member
  obtain ⟨r, sent, named, accepted⟩ := served t member
  exact ⟨r, grows sent, named, accepted⟩

/-- Of each type the client has what the built snapshots that it accepts hold. -/
theorem served_held (world : WorldOk w) (rendered : ∀ r ∈ rs, ∃ snap ∈ w.issued,
    snap.buildResponse r.typeUrl = some r) (served : Served rs) (member : t ∈ types) {m : Message}
    (holds : ∀ v broken, (t = tListener → broken = false) →
      (Snapshot.build v w.upstreamIp broken).byType.lookup t = some [any t m]) :
    ∃ v, held rs t (nameOf m) = some ⟨v, any t m⟩ := by
  obtain ⟨r₀, sent₀, named₀, accepted₀⟩ := served t member
  have given : (rs.find? fun r => r.typeUrl = t ∧ accepts r).isSome := by
    rw [List.find?_isSome]
    exact ⟨r₀, sent₀, by simp [named₀, accepted₀]⟩
  obtain ⟨r, found⟩ := Option.isSome_iff_exists.mp given
  obtain ⟨named, accepted⟩ : r.typeUrl = t ∧ accepts r = true := by
    simpa using List.find?_some found
  obtain ⟨snap, issued, built⟩ := rendered r (List.mem_of_find?_eq_some found)
  obtain ⟨v, broken, rfl⟩ := world.built snap issued
  rw [named] at built
  have unbroken : t = tListener → broken = false := by
    intro isListener
    by_contra isBroken
    have rejected := (rejected_iff built).mpr ⟨isListener, by simpa using isBroken⟩
    simp [accepted] at rejected
  have resources : r.resources = [any t m] := by
    obtain ⟨xs, lookup, rfl⟩ := Option.map_eq_some_iff.mp built
    exact Option.some.inj (lookup.symm.trans (holds v broken unbroken))
  refine ⟨r.versionInfo, ?_⟩
  rw [held, found, Option.bind_some, resources]
  simp [any]

theorem cluster_refs : references (.cluster cluster) = [(tEndpoint, clusterName)] := by decide

theorem served_forwards (world : WorldOk w) (rendered : ∀ r ∈ rs, ∃ snap ∈ w.issued,
    snap.buildResponse r.typeUrl = some r) (served : Served rs) :
    forwards (held rs) listenerName = [⟨w.upstreamIp, upstreamPort⟩] := by
  have inTypes : tListener ∈ types ∧ tRoute ∈ types ∧ tCluster ∈ types ∧ tEndpoint ∈ types := by
    decide
  obtain ⟨_, lds⟩ := served_held world rendered served inTypes.1 (m := .listener (listener false))
    fun v broken unbroken => by rw [build_lookup_listener, unbroken rfl]
  obtain ⟨_, rds⟩ := served_held world rendered served inTypes.2.1
    (m := .routeConfiguration routeConfig) fun v broken _ => by
      rw [build_lookup, if_neg (by decide), if_neg (by decide), if_pos rfl]
  obtain ⟨_, cds⟩ := served_held world rendered served inTypes.2.2.1 (m := .cluster cluster)
    fun v broken _ => by rw [build_lookup, if_neg (by decide), if_pos rfl]
  obtain ⟨_, eds⟩ := served_held world rendered served inTypes.2.2.2
    (m := .clusterLoadAssignment (endpoints w.upstreamIp)) fun v broken _ => by
      rw [build_lookup, if_pos rfl]
  calc addressesFrom (held rs) 4 (tListener, listenerName)
    _ = addressesFrom (held rs) 3 (tRoute, routeName) := addresses_pass lds rfl 3
    _ = addressesFrom (held rs) 2 (tCluster, clusterName) := addresses_pass rds rfl 2
    _ = addressesFrom (held rs) 1 (tEndpoint, clusterName) := addresses_pass cds (Prod.ext cluster_refs rfl) 1
    _ = [⟨w.upstreamIp, upstreamPort⟩] := addresses_end eds rfl 0

end Serving

/- Runs -/

section Steps
variable {st st' : State} {e : Step} {w w' : World} {s s' : AdsStream} {a : Act}

theorem stream_next {i : Nat} (h : server.next st e = some st')
    (found : st'.tasks[i]? = some (.stream s')) :
    (i = st.tasks.length ∧ s' = .opened st.shared) ∨
    (st.tasks[i]? = some (.stream s') ∧ ∀ a, e ≠ .step i a) ∨
    ∃ s a, e = .step i a ∧ st.tasks[i]? = some (.stream s) ∧
      StreamStep st.shared s a st'.shared s' := by
  rcases next_cases h with ⟨call, rfl, rfl⟩ | ⟨j, a, t, w, t', rfl, before, moved, rfl⟩
  · rcases getElem?_append_one found with old | ⟨last, eq⟩
    · exact Or.inr (Or.inl ⟨old, by simp⟩)
    · cases call with
      | push kind => cases eq
      | openStream =>
        cases eq
        exact Or.inl ⟨last, rfl⟩
  · rcases getElem?_set_cases found with ⟨rfl, eq⟩ | ⟨other, old⟩
    · rcases task_step moved with ⟨p, p', rfl, rfl, step⟩ | ⟨s, s', rfl, rfl, step⟩
      · cases eq
      · cases eq
        exact Or.inr (Or.inr ⟨s, a, rfl, before, step⟩)
    · exact Or.inr (Or.inl ⟨old, by simp [other.symm]⟩)

theorem push_grows (typeUrl : String) (snap : Snapshot) (o : Outbox) :
    o.responses ⊆ (pushIfNew typeUrl snap o).responses := by
  rcases push_if_new_cases typeUrl snap o with ⟨same, _⟩ | ⟨resp, _, _, sent⟩
  · rw [same]
    exact List.Subset.refl _
  · rw [sent]
    exact List.subset_cons_self resp o.responses

theorem step_grows (step : StreamStep w s a w' s') : s.outbox.responses ⊆ s'.outbox.responses := by
  cases step with
  | respond typeUrl snap phase => exact push_grows typeUrl snap s.outbox
  | deliver snap typeUrl todo phase => exact push_grows typeUrl snap s.outbox
  | _ => exact List.Subset.refl _

structure ServingOk (i : Nat) (st : State) : Prop where
  server : ServerOk st
  there : i < st.tasks.length
  served : ∀ s, st.tasks[i]? = some (.stream s) → Served s.outbox.responses

theorem serving_ok_next {i : Nat} (ok : ServingOk i st) (h : server.next st e = some st') :
    ServingOk i st' := by
  refine ⟨server_ok_next ok.server h, Nat.lt_of_lt_of_le ok.there (tasks_grow h), ?_⟩
  have there := ok.there
  intro s' found
  rcases stream_next h found with ⟨last, _⟩ | ⟨old, _⟩ | ⟨s, a, _, before, step⟩
  · omega
  · exact ok.served s' old
  · exact served_mono (ok.served s before) (step_grows step)

end Steps

/- Pushes publish once -/

/-- A push that has still to publish a snapshot of this version. -/
def Holding (v : String) : ControlTask → Bool
  | .push (.numbered _ snap) => snap.version = v
  | .push (.stored snap) => snap.version = v
  | .push .done => false
  | .stream _ => false

/-- No push is left that would publish the version. -/
def Spent (v : String) (st : State) : Prop := st.tasks.countP (Holding v) = 0

/-- What a NACK rolls back to is not faulty, nor is what a push stores. -/
def TaskGood : ControlTask → Prop
  | .push (.numbered .good snap) => ¬ Faulty snap
  | .push (.stored snap) => ¬ Faulty snap
  | .stream s => ∀ good, s.phase = .nacking good → ¬ Faulty good
  | _ => True

abbrev TargetsGood : State → Prop := Holds (fun w => ¬ Faulty w.lastGood) fun _ _ => TaskGood

section Pushes
variable {st st' : State} {e : Step}

theorem targets_good_next (ok : TargetsGood st) (h : server.next st e = some st') :
    TargetsGood st' := by
  refine holds_next (fun i w c _ good => ?_) (fun _ _ _ _ _ _ good => good) ?_
    (fun _ _ _ _ _ _ _ _ _ _ good _ => good) (fun _ _ => trivial) ok h
  · cases c with
    | push kind =>
      refine ⟨good, ?_⟩
      cases kind with
      | good => exact good_faultless _ _
      | broken => trivial
    | openStream => exact ⟨good, by simp [server, spawn, TaskGood, AdsStream.opened]⟩
  · intro i w t a w' t' good own moved
    rcases task_step moved with ⟨p, p', rfl, rfl, step⟩ | ⟨s, s', rfl, rfl, step⟩
    · cases step with
      | store snap => exact ⟨own, own⟩
      | publishBroken snap => exact ⟨good, trivial⟩
      | publishGood snap => exact ⟨good, trivial⟩
    · refine ⟨(stream_step_frame step).1 ▸ good, ?_⟩
      intro target nacking
      exact stream_step_nacking step nacking ▸ good

theorem targets_good_run {ip : String} {es : List Step}
    (run : exec server.next (start ip) es = some st) : TargetsGood st := by
  have first : ¬ Faulty (start ip).shared.lastGood := good_faultless "v1" ip
  exact exec_invariant (fun _ _ _ ok h => targets_good_next ok h) run ⟨first, by simp [start]⟩

inductive Publishes (st st' : State) : Prop where
  | draw (snap : Snapshot) (fresh : ∀ old ∈ st.shared.issued, old.version ≠ snap.version)
      (same : st'.shared.advertised = st.shared.advertised)
      (count : ∀ v, st'.tasks.countP (Holding v) =
        st.tasks.countP (Holding v) + if snap.version = v then 1 else 0)
  | push (snap : Snapshot) (sent : st'.shared.advertised = st.shared.advertised.send snap)
      (count : ∀ v, st'.tasks.countP (Holding v) + (if snap.version = v then 1 else 0) =
        st.tasks.countP (Holding v))
  | rollback (good : Snapshot) (faultless : ¬ Faulty good)
      (sent : st'.shared.advertised = st.shared.advertised.send good)
      (count : ∀ v, st'.tasks.countP (Holding v) = st.tasks.countP (Holding v))
  | still (same : st'.shared.advertised = st.shared.advertised)
      (count : ∀ v, st'.tasks.countP (Holding v) = st.tasks.countP (Holding v))

theorem publishes_next (ok : ServerOk st) (targets : TargetsGood st)
    (few : st'.shared.issued.length ≤ 2 ^ 64) (h : server.next st e = some st') :
    Publishes st st' := by
  rcases next_cases h with ⟨call, rfl, rfl⟩ | ⟨i, a, t, w, t', rfl, found, moved, rfl⟩
  · cases call with
    | push kind =>
      refine .draw _ (next_fresh ok.shared kind few) rfl fun v => ?_
      simp [server, spawn, nextVersion, Holding, List.countP_append]
    | openStream =>
      refine .still rfl fun v => ?_
      simp [server, spawn, Holding, List.countP_append]
  · have count : ∀ v, (st.tasks.set i t').countP (Holding v) + _ = _ := fun v => countP_set found
    have own := targets.task i t found
    have step : stepTask st.shared t a = some (w, t') := moved
    rcases task_step step with ⟨p, p', rfl, rfl, moves⟩ | ⟨s, s', rfl, rfl, moves⟩
    · cases moves with
      | store snap =>
        refine .still rfl fun v => ?_
        simpa [Holding] using count v
      | publishBroken snap => exact .push snap rfl fun v => by simpa [Holding] using count v
      | publishGood snap => exact .push snap rfl fun v => by simpa [Holding] using count v
    · have still : ∀ v, (st.tasks.set i (.stream s')).countP (Holding v) =
          st.tasks.countP (Holding v) := fun v => by simpa [Holding] using count v
      cases moves with
      | rollback good phase => exact .rollback good (own good phase) rfl still
      | _ => exact .still rfl still

theorem spent_next (publishes : Publishes st st') {snap : Snapshot} (issued : snap ∈ st.shared.issued)
    (spent : Spent snap.version st) : Spent snap.version st' := by
  unfold Spent at spent ⊢
  cases publishes with
  | draw new fresh same count =>
    rw [count, spent, if_neg (fresh snap issued).symm]
  | push other sent count =>
    have := count snap.version
    omega
  | rollback good faultless sent count => rw [count, spent]
  | still same count => rw [count, spent]

theorem unissued_spent (ok : ServerOk st) {v : String}
    (fresh : ∀ old ∈ st.shared.issued, old.version ≠ v) : Spent v st := by
  rw [Spent, List.countP_eq_zero]
  intro t member holds
  obtain ⟨i, atI⟩ := List.mem_iff_getElem?.mp member
  have own := ok.task i t atI
  cases t with
  | stream s => simp [Holding] at holds
  | push p =>
    cases p with
    | numbered kind snap => exact fresh snap own (by simpa [Holding] using holds)
    | stored snap => exact fresh snap own (by simpa [Holding] using holds)
    | done => simp [Holding] at holds

/-- Each version is with one push at most, and with none once it is advertised, unless
    it may be rolled back to. -/
structure PushesOk (st : State) : Prop where
  server : ServerOk st
  targets : TargetsGood st
  alone : ∀ v, st.tasks.countP (Holding v) ≤ 1
  advertised : Faulty st.shared.advertised.value → Spent st.shared.advertised.value.version st

theorem pushes_ok_next (ok : PushesOk st) (few : st'.shared.issued.length ≤ 2 ^ 64)
    (h : server.next st e = some st') : PushesOk st' := by
  have publishes := publishes_next ok.server ok.targets few h
  have stays := fun faulty => spent_next publishes ok.server.shared.advertised (ok.advertised faulty)
  refine ⟨server_ok_next ok.server h, targets_good_next ok.targets h, ?_, ?_⟩
  · intro v
    have before := ok.alone v
    cases publishes with
    | draw snap fresh same count =>
      rw [count]
      split
      · rename_i isNew
        have none := unissued_spent ok.server fresh
        rw [Spent, isNew] at none
        omega
      · exact before
    | push snap sent count =>
      have := count v
      omega
    | rollback good faultless sent count => exact count v ▸ before
    | still same count => exact count v ▸ before
  · cases publishes with
    | draw snap fresh same count => exact same ▸ stays
    | push snap sent count =>
      intro _
      have before := ok.alone snap.version
      have now := count snap.version
      rw [if_pos rfl] at now
      rw [sent, send_value, Spent]
      omega
    | rollback good faultless sent count =>
      rw [sent, send_value]
      exact fun faulty => absurd faulty faultless
    | still same count => exact same ▸ stays

end Pushes

/- A client that answers -/

/-- The client of stream `i` rejects only what it was sent. -/
def AnswersSent (i : Nat) (st : State) : Step → Prop
  | .step j (.request q) => j = i → q.IsNack → ∀ s ∈ st.tasks[j]?.bind streamOf,
    ∃ r ∈ s.outbox.responses, r.nonce = q.responseNonce
  | _ => True

instance (i : Nat) (st : State) (e : Step) : Decidable (AnswersSent i st e) := by
  unfold AnswersSent
  split <;> infer_instance

def Answered (s : AdsStream) (r : DiscoveryResponse) : Prop :=
  ∃ q ∈ s.received, q.IsNack ∧ q.responseNonce = r.nonce

/-- A faulty snapshot that the stream has in hand or has sent is with no push any more;
    and once its rejection was handled it is not advertised. -/
structure Recovering (st : State) (s : AdsStream) : Prop where
  sending : ∀ snap, s.phase.sending = some snap → Faulty snap → Spent snap.version st
  sent : ∀ r ∈ s.outbox.responses, accepts r = false → Spent r.versionInfo st
  heard : ∀ q ∈ s.received, q.IsNack → ∃ r ∈ s.outbox.responses, r.nonce = q.responseNonce
  gone : (∀ good, s.phase ≠ .nacking good) → ∀ r ∈ s.outbox.responses, accepts r = false →
    Answered s r → st.shared.advertised.value.version ≠ r.versionInfo

section Recovery
variable {st st' : State} {w w' : World} {s s' : AdsStream} {a : Act} {r : DiscoveryResponse}

theorem rejected_origin (world : WorldOk w) (outbox : OutboxOk w.issued s.outbox)
    (member : r ∈ s.outbox.responses) (rejected : accepts r = false) :
    ∃ snap ∈ w.issued, Faulty snap ∧ snap.version = r.versionInfo ∧ r.typeUrl = tListener ∧
      snap.buildResponse tListener = some r := by
  obtain ⟨snap, issued, built⟩ := outbox.rendered r member
  obtain ⟨v, broken, rfl⟩ := world.built snap issued
  obtain ⟨isListener, isBroken⟩ := (rejected_iff built).mp rejected
  exact ⟨_, issued, faulty_iff.mpr isBroken, (build_response_fields built).2.1.symm, isListener,
    isListener ▸ built⟩

theorem faultless_apart (world : WorldOk w) (few : w.issued.length ≤ 2 ^ 64)
    (outbox : OutboxOk w.issued s.outbox) (faultless : ¬ Faulty w.advertised.value)
    (member : r ∈ s.outbox.responses) (rejected : accepts r = false) :
    w.advertised.value.version ≠ r.versionInfo := by
  obtain ⟨snap, issued, faulty, version, _⟩ := rejected_origin world outbox member rejected
  intro same
  have one := issued_unique world few _ world.advertised snap issued (same.trans version.symm)
  exact faultless (one ▸ faulty)

theorem recovering_beside (pushes : PushesOk st) (pushes' : PushesOk st')
    (few : st'.shared.issued.length ≤ 2 ^ 64) (publishes : Publishes st st')
    (ok : StreamOk st.shared s) (ok' : StreamOk st'.shared s) (recovering : Recovering st s) :
    Recovering st' s := by
  have world := pushes.server.shared
  constructor
  case sending =>
    intro snap inHand faulty
    exact spent_next publishes (ok.sending snap inHand) (recovering.sending snap inHand faulty)
  case sent =>
    intro r member rejected
    obtain ⟨snap, issued, _, version, _⟩ := rejected_origin world ok.outbox member rejected
    rw [← version]
    apply spent_next publishes issued
    rw [version]
    exact recovering.sent r member rejected
  case heard => exact recovering.heard
  case gone =>
    intro home r member rejected answered
    have before := recovering.gone home r member rejected answered
    cases publishes with
    | draw snap fresh same count => rwa [same]
    | push snap sent count =>
      have spent := recovering.sent r member rejected
      rw [sent, send_value]
      intro same
      have held := count r.versionInfo
      rw [if_pos same, spent] at held
      omega
    | rollback good faultless sent count =>
      have value : st'.shared.advertised.value = good := by rw [sent, send_value]
      exact faultless_apart pushes'.server.shared few ok'.outbox (value ▸ faultless) member rejected
    | still same count => rwa [same]

theorem recovering_sends (pushes : PushesOk st) (few : st.shared.issued.length ≤ 2 ^ 64)
    (ok : StreamOk st.shared s) (recovering : Recovering st s) {next : Phase} {typeUrl : String}
    {snap : Snapshot} (pays : Pays s.phase next typeUrl snap) :
    Recovering st { s with outbox := pushIfNew typeUrl snap s.outbox, phase := next } := by
  have home : ∀ good, s.phase ≠ .nacking good := by
    intro good nacking
    simpa [nacking, Phase.sending] using pays.sending
  have world := pushes.server.shared
  have issued := ok.sending snap pays.sending
  have inHand := recovering.sending snap pays.sending
  have nextSending : ∀ snap', next.sending = some snap' → Faulty snap' → Spent snap'.version st :=
    fun snap' isNext => pays.nextSending snap' isNext ▸ inHand
  rcases push_if_new_cases typeUrl snap s.outbox with ⟨same, _⟩ | ⟨resp, built, _, sent⟩
  · rw [same]
    exact ⟨nextSending, recovering.sent, recovering.heard, fun _ => recovering.gone home⟩
  · rw [sent]
    have rejectedSnap : accepts resp = false → Faulty snap ∧ snap.version = resp.versionInfo := by
      intro rejected
      obtain ⟨v, broken, rfl⟩ := world.built snap issued
      exact ⟨faulty_iff.mpr ((rejected_iff built).mp rejected).2, (build_response_fields built).2.1.symm⟩
    constructor
    case sending => exact nextSending
    case sent =>
      intro r member rejected
      rcases List.mem_cons.mp member with rfl | old
      · obtain ⟨faulty, version⟩ := rejectedSnap rejected
        exact version ▸ inHand faulty
      · exact recovering.sent r old rejected
    case heard =>
      intro q inReceived isNack
      obtain ⟨r, old, nonce⟩ := recovering.heard q inReceived isNack
      exact ⟨r, List.mem_cons_of_mem resp old, nonce⟩
    case gone =>
      intro _ r member rejected answered
      rcases List.mem_cons.mp member with rfl | old
      · -- an answer to the version sent now was one to the same version sent before
        obtain ⟨q, inReceived, isNack, nonce⟩ := answered
        obtain ⟨r', old, nonce'⟩ := recovering.heard q inReceived isNack
        obtain ⟨snap', issued', built'⟩ := ok.outbox.rendered r' old
        obtain ⟨sameType, sameVersion⟩ := (SotwNonces.nonce_inj
          (SotwNonces.issued_rendered world issued' built')
          (SotwNonces.issued_rendered world issued built)).mp (nonce'.trans nonce)
        have version' := (build_response_fields built').2.1
        have version := (build_response_fields built).2.1
        have one := issued_unique world few snap' issued' snap issued
          (version'.symm.trans (sameVersion.trans version))
        rw [one, sameType, (build_response_fields built).1, built] at built'
        cases built'
        exact recovering.gone home _ old rejected ⟨q, inReceived, isNack, nonce⟩
      · exact recovering.gone home r old rejected answered

theorem recovering_takes (recovering : Recovering st s) (phase : s.phase = .select)
    {q : DiscoveryRequest} (clean : ¬ q.IsNack) {next : Phase}
    (sending : ∀ snap, next.sending = some snap → Faulty snap → Spent snap.version st) :
    Recovering st (s.taking q next) := by
  have old : ∀ p ∈ (s.taking q next).received, p.IsNack → p ∈ s.received := by
    intro p member isNack
    rcases List.mem_append.mp member with before | new
    · exact before
    · cases List.mem_singleton.mp new
      exact absurd isNack clean
  refine ⟨sending, recovering.sent, ?_, ?_⟩
  · exact fun p member isNack => recovering.heard p (old p member isNack) isNack
  · rintro _ r sent rejected ⟨p, member, isNack, nonce⟩
    exact recovering.gone (by simp [phase]) r sent rejected ⟨p, old p member isNack, isNack, nonce⟩

theorem recovering_step (pushes : PushesOk st) (few : st.shared.issued.length ≤ 2 ^ 64)
    (ok : StreamOk st.shared s) (recovering : Recovering st s) (targets : TaskGood (.stream s))
    (step : StreamStep w s a st.shared s')
    (honest : ∀ q, a = .request q → q.IsNack → ∃ r ∈ s.outbox.responses, r.nonce = q.responseNonce) :
    Recovering st s' := by
  generalize world : st.shared = w' at step
  cases step with
  | nack q phase isNack =>
    refine ⟨by simp [AdsStream.taking, Phase.sending], recovering.sent, ?_, ?_⟩
    · intro p member isNack
      rcases List.mem_append.mp member with before | new
      · exact recovering.heard p before isNack
      · cases List.mem_singleton.mp new
        exact honest q rfl isNack
    · exact fun home => absurd rfl (home w.lastGood)
  | subscribe q phase isSubscribe =>
    apply recovering_takes recovering phase (by simp [DiscoveryRequest.IsNack, isSubscribe.1])
    rintro snap ⟨⟩
    exact world ▸ pushes.advertised
  | ack q phase notNack answers =>
    exact recovering_takes recovering phase (by simp [DiscoveryRequest.IsNack, notNack])
      (by simp [Phase.sending])
  | respond typeUrl snap phase =>
    exact recovering_sends pushes few ok recovering (respond_pays phase)
  | rollback good phase =>
    refine ⟨by simp [Phase.sending], recovering.sent, recovering.heard, ?_⟩
    intro _ r member rejected _
    have value : st.shared.advertised.value = good := by rw [world]; rfl
    exact faultless_apart pushes.server.shared few ok.outbox (value ▸ targets good phase) member rejected
  | wake order phase behind visits =>
    refine ⟨?_, recovering.sent, recovering.heard, fun _ => recovering.gone (by simp [phase])⟩
    rintro snap ⟨⟩
    exact world ▸ pushes.advertised
  | deliver snap typeUrl todo phase =>
    exact recovering_sends pushes few ok recovering (deliver_pays phase)
  | finish snap phase =>
    exact ⟨by simp [Phase.sending], recovering.sent, recovering.heard,
      fun _ => recovering.gone (by simp [phase])⟩
  | close notNacking =>
    exact ⟨by simp [Phase.sending], recovering.sent, recovering.heard,
      fun _ => recovering.gone notNacking⟩

end Recovery

theorem opened_recovering (w : World) (st : State) : Recovering st (.opened w) := by
  constructor <;> simp [AdsStream.opened, Phase.sending]

structure RecoveryOk (i : Nat) (st : State) : Prop where
  pushes : PushesOk st
  stream : ∀ s, st.tasks[i]? = some (.stream s) → Recovering st s

/-- The control plane and stream `i`, as long as the numbers last. -/
def Recovers (i : Nat) (st : State) : Prop := st.shared.issued.length ≤ 2 ^ 64 → RecoveryOk i st

theorem recovers_next {i : Nat} {st st' : State} {e : Step} (before : Recovers i st)
    (honest : AnswersSent i st e) (h : server.next st e = some st') : Recovers i st' := by
  intro few
  have grown := issued_next h
  have ok := before (by omega)
  have pushes' := pushes_ok_next ok.pushes few h
  have publishes := publishes_next ok.pushes.server ok.pushes.targets few h
  refine ⟨pushes', ?_⟩
  intro s' found
  rcases stream_next h found with ⟨_, rfl⟩ | ⟨old, _⟩ | ⟨s, a, rfl, found₀, step⟩
  · exact opened_recovering st.shared st'
  · exact recovering_beside ok.pushes pushes' few publishes (ok.pushes.server.task i _ old)
      (pushes'.server.task i _ found) (ok.stream s' old)
  · have okS : StreamOk st.shared s := ok.pushes.server.task i _ found₀
    have okS' : StreamOk st'.shared s := stream_ok_evolves (stream_step_evolves step) okS
    have still := recovering_beside ok.pushes pushes' few publishes okS okS' (ok.stream s found₀)
    apply recovering_step pushes' few okS' still (ok.pushes.targets.task i _ found₀) step
    rintro q rfl isNack
    exact honest rfl isNack s (by simp [found₀, streamOf])

theorem start_recovers (ip : String) (i : Nat) : Recovers i (start ip) := by
  intro _
  have first : ¬ Faulty (start ip).shared.advertised.value := good_faultless "v1" ip
  refine ⟨⟨start_ok ip, ⟨first, by simp [start]⟩, by simp [start], fun faulty => absurd faulty first⟩, ?_⟩
  simp [start]

/- The smoke test: a subscribed client is sent a broken push, and rejects it -/

def subscribeAll : List Step :=
  .spawn .openStream :: types.flatMap fun t => [.step 0 (.request ⟨t, "", "", none⟩), .step 0 .respond]

def brokenDelivered : List Step :=
  [.spawn (.push .broken), .step 1 .proceed, .step 0 (.wake types)] ++
    List.replicate 5 (.step 0 .deliver)

def smokeRejection : List Step :=
  [.step 0 (.request ⟨tListener, "v1", "lds-v2", some "empty stat_prefix"⟩), .step 0 .rollback,
    .step 0 (.wake types)] ++ List.replicate 5 (.step 0 .deliver)

/- Whole runs -/

section Runs
variable {ip : String} {i : Nat} {es fs : List Step} {st st' : State} {s s' : AdsStream}

theorem upstream_fixed (run : exec server.next (start ip) es = some st) :
    st.shared.upstreamIp = ip :=
  (exec_invariant (fun _ _ _ ok h => built_ok_next ok h) run (start_built_ok ip)).shared

/-- In every interleaving of good and broken pushes, of rollbacks and of any requests on
    any number of streams: once a client has been sent each type so that it accepts it,
    its listener forwards to the upstream at every later moment. It never takes the
    Listener of a broken snapshot, also while that is advertised and when no one
    rejects it. -/
theorem traffic_survives_broken_pushes (run : exec server.next (start ip) es = some st)
    (found : st.tasks[i]? = some (.stream s)) (served : Served s.outbox.responses)
    (more : exec server.next st fs = some st') (later : st'.tasks[i]? = some (.stream s')) :
    forwards (held s'.outbox.responses) listenerName = [⟨ip, upstreamPort⟩] := by
  have serving : ServingOk i st := by
    refine ⟨server_ok_exec run (start_ok ip), (List.getElem?_eq_some_iff.mp found).1, ?_⟩
    intro u atI
    cases ControlTask.stream.inj (Option.some.inj (found.symm.trans atI))
    exact served
  have serving' := exec_invariant (fun _ _ _ ok h => serving_ok_next ok h) more serving
  have rendered := (serving'.server.task i _ later).outbox.rendered
  rw [← upstream_fixed (exec_append_some.mpr ⟨st, run, more⟩)]
  exact served_forwards serving'.server.shared rendered (serving'.served s' later)

theorem smoke_traffic_survives :
    ∃ st s, exec server.next (start "10.0.0.1") (subscribeAll ++ brokenDelivered) = some st ∧
      st.tasks[0]? = some (.stream s) ∧ (s.outbox.last tListener).map accepts = some false ∧
      forwards (held s.outbox.responses) listenerName = [⟨"10.0.0.1", upstreamPort⟩] := by
  obtain ⟨st, s, st', s', run, found, served, more, later, broken⟩ :
      ∃ st s st' s', exec server.next (start "10.0.0.1") subscribeAll = some st ∧
        st.tasks[0]? = some (.stream s) ∧ Served s.outbox.responses ∧
        exec server.next st brokenDelivered = some st' ∧ st'.tasks[0]? = some (.stream s') ∧
        (s'.outbox.last tListener).map accepts = some false :=
    ⟨_, _, _, _, rfl, rfl, by unfold Served; decide, rfl, rfl, by decide⟩
  exact ⟨st', s', exec_append_some.mpr ⟨st, run, more⟩, later, broken,
    traffic_survives_broken_pushes run found served more later⟩

/-- In every interleaving of good and broken pushes, of rollbacks and of any requests on
    any number of streams, where one client rejects only what it was sent: whenever its
    stream waits with the latest snapshot seen and every response that it does not
    accept was rejected, what is advertised is faultless, and what it was sent last of
    every type that it asked for is that snapshot's and accepted. So no broken push
    stays, whoever else listens, and none comes back. -/
theorem answered_client_recovers (few : es.countP IsPush < 2 ^ 64)
    (honest : Along server.next (AnswersSent i) (start ip) es)
    (run : exec server.next (start ip) es = some st) (found : st.tasks[i]? = some (.stream s))
    (idle : s.phase = .select) (latest : s.receiver.UpToDate st.shared.advertised)
    (asked : s.Asked tListener)
    (answered : ∀ r ∈ s.outbox.responses, accepts r = false → Answered s r) :
    ¬ Faulty st.shared.advertised.value ∧ ∀ t resp, s.Asked t →
      st.shared.advertised.value.buildResponse t = some resp →
      s.outbox.last t = some resp ∧ accepts resp = true := by
  have ok := along_invariant (fun _ _ _ before allowed h => recovers_next before allowed h) run
    honest (start_recovers ip i) (few_issued run few)
  have faultless : ¬ Faulty st.shared.advertised.value := by
    rintro ⟨r, built, rejected⟩
    have last := idle_stream_current run few found idle latest asked built
    have member := (last_mem last).1
    exact (ok.stream s found).gone (by simp [idle]) r member rejected (answered r member rejected)
      (build_response_fields built).2.1.symm
  refine ⟨faultless, fun t resp askedT built => ?_⟩
  refine ⟨idle_stream_current run few found idle latest askedT built, ?_⟩
  cases accepted : accepts resp with
  | true => rfl
  | false =>
    obtain ⟨v, broken, eq⟩ := ok.pushes.server.shared.built _ ok.pushes.server.shared.advertised
    rw [eq] at built faultless
    exact absurd (faulty_iff.mpr ((rejected_iff built).mp accepted).2) faultless

theorem smoke_client_recovers :
    ∃ st s, exec server.next (start "10.0.0.1") (subscribeAll ++ brokenDelivered ++ smokeRejection) =
        some st ∧ st.tasks[0]? = some (.stream s) ∧
      (∃ r ∈ s.outbox.responses, accepts r = false) ∧ ¬ Faulty st.shared.advertised.value := by
  obtain ⟨st, s, run, found, idle, latest, asked, rejects, answered⟩ :
      ∃ st s, exec server.next (start "10.0.0.1") (subscribeAll ++ brokenDelivered ++ smokeRejection) =
          some st ∧ st.tasks[0]? = some (.stream s) ∧ s.phase = .select ∧
        s.receiver.UpToDate st.shared.advertised ∧ s.Asked tListener ∧
        (∃ r ∈ s.outbox.responses, accepts r = false) ∧
        ∀ r ∈ s.outbox.responses, accepts r = false → Answered s r :=
    ⟨_, _, rfl, rfl, rfl, rfl, ⟨_, List.mem_cons_self, rfl, by decide⟩, by decide,
      by unfold Answered; decide⟩
  exact ⟨st, s, run, found, rejects,
    (answered_client_recovers (by decide) (by decide) run found idle latest asked answered).1⟩

end Runs

end SotwTraffic
