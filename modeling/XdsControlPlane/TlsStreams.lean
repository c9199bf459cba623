import XdsControlPlane.VersionedPushes
import XdsControlPlane.DrawnNumbers
import XdsControlPlane.SilentTasks
import XdsControlPlane.TlsServer
import XdsControlPlane.SotwNonces

/-!
Chapter 3, the streams as readers of the rotations. What a client is sent follows
the certificates in the order in which they were published, and nothing is sent to
it twice; once rotations pause, a number of steps known beforehand brings it up to
date. A rotation moves the one Secret and no other resource, and what one client
does is seen by no other.
-/
namespace TlsStreams
open ExecutableRuns SharedCells KeyedMaps EnvoyMessages WatchReaders VersionedPushes DrawnNumbers
  SilentTasks TlsSnapshots TlsServer
open SotwNonces (string_append_inj)

/- The streams as readers -/

theorem build_response_type {s : Snapshot} {typeUrl : String} {r : DiscoveryResponse}
    (h : s.buildResponse typeUrl = some r) : r.typeUrl = typeUrl := by
  obtain ⟨resources, _, rfl⟩ := Option.map_eq_some_iff.mp h
  rfl

def rendering : Rendering String Snapshot String DiscoveryResponse where
  version := Snapshot.version
  respond typeUrl snap := snap.buildResponse typeUrl
  key := DiscoveryResponse.typeUrl
  label := DiscoveryResponse.versionInfo
  respond_key _ _ _ built := build_response_type built
  respond_label _ _ _ built := build_response_version built

def outboxOf (o : TlsServer.Outbox) : VersionedPushes.Outbox String String DiscoveryResponse :=
  ⟨o.sentVersion, o.responses⟩

theorem outbox_push (typeUrl : String) (snap : Snapshot) (o : TlsServer.Outbox) :
    outboxOf (pushIfNew typeUrl snap o) = rendering.pushIfNew typeUrl snap (outboxOf o) := by
  have respond : rendering.respond typeUrl snap = snap.buildResponse typeUrl := rfl
  have version : rendering.version snap = snap.version := rfl
  simp only [pushIfNew, Rendering.pushIfNew, outboxOf, respond, version]
  split
  · rfl
  · cases snap.buildResponse typeUrl <;> rfl

def stageOf : Phase → Stage String Snapshot
  | .select => .idle
  | .subscribing typeUrl snap => .answering typeUrl snap
  | .watching snap todo => .visiting snap todo
  | .closed => .closed

def readerOf (s : AdsStream) :
    Reader String Snapshot (VersionedPushes.Outbox String String DiscoveryResponse) :=
  ⟨s.receiver, s.subscribed.elems, stageOf s.phase, outboxOf s.outbox⟩

/-- The steps that the loop takes by itself, once it has something to do. -/
def ownAct : Act → Bool
  | .respond => true
  | .wake _ => true
  | .deliver => true
  | _ => false

theorem insert_subset (s : HashSet String) (t : String) : s.elems ⊆ (s.insert t).elems :=
  fun _ member => List.mem_insert_of_mem member

theorem stream_reads {w : Control} {s s' : AdsStream} {a : Act} (step : StreamStep w s a s') :
    ReaderStep rendering.channel w.advertised (readerOf s) (ownAct a) (readerOf s') := by
  cases step with
  | note r phase quiet =>
    have idle : (readerOf s).stage = .idle := congrArg stageOf phase
    have moved := ReaderStep.note (c := rendering.channel) (w := w.advertised)
      (s.subscribed.insert r.typeUrl).elems (outboxOf s.outbox) .idle idle (Or.inl rfl)
      (insert_subset s.subscribed r.typeUrl) rfl id
    rwa [← idle] at moved
  | subscribe r phase clean noNonce =>
    exact .ask r.typeUrl _ _ (congrArg stageOf phase) (mem_insert.mpr (Or.inl rfl))
      (insert_subset s.subscribed r.typeUrl) rfl id
  | respond typeUrl snap phase =>
    have moved := ReaderStep.answer (c := rendering.channel) (w := w.advertised) (r := readerOf s)
      typeUrl snap (congrArg stageOf phase)
    unfold readerOf
    rw [outbox_push]
    exact moved
  | wake order phase behind visits => exact .wake order (congrArg stageOf phase) behind visits
  | deliver snap typeUrl todo phase =>
    have moved := ReaderStep.visit (c := rendering.channel) (w := w.advertised) (r := readerOf s)
      typeUrl snap todo (congrArg stageOf phase)
    unfold readerOf
    rw [outbox_push]
    exact moved
  | finish snap phase => exact .finish snap (congrArg stageOf phase)
  | close => exact .close _

def streamOf : ControlTask → Option AdsStream
  | .rotate _ => none
  | .stream s => some s

theorem stream_iff (t : ControlTask) (s : AdsStream) : streamOf t = some s ↔ t = .stream s := by
  cases t <;> simp [streamOf]

theorem stream_moves {w : Control} {s : AdsStream} (due : (readerOf s).Due w.advertised) :
    ∃ a s', ownAct a ∧ stepStream w s s.phase a = some s' := by
  obtain ⟨receiver, subscribed, outbox, phase⟩ := s
  cases phase with
  | select => exact ⟨.wake subscribed.elems, _, rfl, if_pos ⟨due, List.Perm.refl _⟩⟩
  | subscribing typeUrl snap => exact ⟨.respond, _, rfl, rfl⟩
  | watching snap todo =>
    cases todo with
    | nil => exact ⟨.deliver, _, rfl, rfl⟩
    | cons typeUrl todo => exact ⟨.deliver, _, rfl, rfl⟩
  | closed => exact due.elim

def streams : Readers server rendering.channel where
  watch := Control.advertised
  reader t := (streamOf t).map readerOf
  own := ownAct
  spawned w call := by
    cases call with
    | rotate => exact ⟨rfl, nofun⟩
    | openStream =>
      refine ⟨rfl, ?_⟩
      rintro r ⟨⟩
      exact ⟨rfl, rfl, rfl, fun _ => rfl⟩
  stepped w t a w' t' step := by
    rcases task_step step with ⟨r, r', rfl, rfl, moved⟩ | ⟨s, s', rfl, rfl, rfl, moved⟩
    · cases moved with
      | build v cert => exact .other _ _ (Or.inl rfl)
      | fail v => exact .other _ _ (Or.inl rfl)
      | publish snap => exact .other _ _ (Or.inr ⟨snap, rfl⟩)
    · exact .read _ _ _ (stream_reads moved)
  enabled := by
    refine enabled_of_due ControlTask.stream stream_iff ?_
    intro w s due
    obtain ⟨a, s', own, moved⟩ := stream_moves due
    exact ⟨a, s', own, by simp [server, stepTask, moved]⟩

def sessions : Streams streams AdsStream where
  task := .stream
  streamOf := streamOf
  read := readerOf
  reads _ := rfl
  stream_iff := stream_iff

/- The versions of the rotations -/

def heldVersion : ControlTask → Option String
  | .rotate (.numbered v) => some v
  | .rotate (.built snap) => some snap.version
  | _ => none

def IsRotate : Step → Bool
  | .spawn .rotate => true
  | _ => false

def rotationNumbers : Drawing server versionLabel Snapshot.version where
  counter := Control.version
  watch := Control.advertised
  held := heldVersion
  draws := IsRotate
  spawned w call := by
    cases call with
    | rotate => exact .draw
    | openStream => exact .keep none (by simp)
  stepped i w t a w' t' step := by
    rcases task_step step with ⟨r, r', rfl, rfl, moved⟩ | ⟨s, s', rfl, rfl, rfl, moved⟩
    · cases moved with
      | build v cert => exact .keep _ (fun _ same => same)
      | fail v => exact .keep _ (by simp [heldVersion])
      | publish snap => exact .publish snap rfl
    · exact .keep _ (by simp [heldVersion])

/-- Every snapshot that was ever advertised, in order. -/
def history (ip : String) (cert : CertPem) (es : List Step) : List Snapshot :=
  streams.history (start ip cert) es

theorem history_versions {ip : String} {cert : CertPem} {es : List Step} {st : State}
    (run : exec server.next (start ip cert) es = some st) (few : es.countP IsRotate < 2 ^ 64) :
    ((history ip cert es).map Snapshot.version).Nodup := by
  have first : versionLabel 1 = "v1" := by decide
  exact versions_distinct (D := rotationNumbers) version_label_injective (by simp [start]) rfl
    first.symm few run

theorem history_distinct {ip : String} {cert : CertPem} {es : List Step} {st : State}
    (run : exec server.next (start ip cert) es = some st) (few : es.countP IsRotate < 2 ^ 64) :
    rendering.Distinct (history ip cert es) :=
  distinct_of_nodup rendering (history_versions run few)

/- What the snapshots hold -/

/-- The snapshot was built for `ip` with the first certificate or one minted in the run. -/
def Minted (ip : String) (cert : CertPem) (es : List Step) (snap : Snapshot) : Prop :=
  ∃ v c, snap = .build v ip c ∧ (c = cert ∨ ∃ j, .step j (.mint (some c)) ∈ es)

structure MintedSoFar (ip : String) (cert : CertPem) (es : List Step) (st : State)
    (published : List Snapshot) : Prop where
  upstreamIp : st.shared.upstreamIp = ip
  published : ∀ snap ∈ published, Minted ip cert es snap
  built : ∀ t ∈ st.tasks, ∀ snap, t = .rotate (.built snap) → Minted ip cert es snap

section Minting
variable {ip : String} {cert : CertPem} {es : List Step} {st st' : State} {e : Step}
  {published : List Snapshot}

theorem minted_tasks (before : MintedSoFar ip cert es st published) (member : e ∈ es)
    (h : server.next st e = some st') :
    st'.shared.upstreamIp = ip ∧
      (∀ t ∈ st'.tasks, ∀ snap, t = .rotate (.built snap) → Minted ip cert es snap) ∧
      ∀ snap, st'.shared.advertised = st.shared.advertised.send snap → Minted ip cert es snap := by
  have unsent : ∀ snap, st.shared.advertised ≠ st.shared.advertised.send snap := fun snap same =>
    send_moves _ snap same.symm
  rcases next_cases h with ⟨call, rfl, rfl⟩ | ⟨i, a, t, w, t', rfl, found, moved, rfl⟩
  · cases call with
    | rotate =>
      refine ⟨before.upstreamIp, ?_, fun snap sent => absurd sent (unsent snap)⟩
      intro u inTasks snap same
      rcases List.mem_append.mp inTasks with old | new
      · exact before.built u old snap same
      · rw [List.mem_singleton.mp new] at same
        cases same
    | openStream =>
      refine ⟨before.upstreamIp, ?_, fun snap sent => absurd sent (unsent snap)⟩
      intro u inTasks snap same
      rcases List.mem_append.mp inTasks with old | new
      · exact before.built u old snap same
      · rw [List.mem_singleton.mp new] at same
        cases same
  · have own := before.built t (List.mem_of_getElem? found)
    have step : stepTask st.shared t a = some (w, t') := moved
    have rest : (∀ snap, t' = .rotate (.built snap) → Minted ip cert es snap) →
        ∀ u ∈ st.tasks.set i t', ∀ snap, u = .rotate (.built snap) → Minted ip cert es snap := by
      intro new u inTasks snap same
      rcases List.mem_or_eq_of_mem_set inTasks with old | rfl
      · exact before.built u old snap same
      · exact new snap same
    rcases task_step step with ⟨r, r', rfl, rfl, moves⟩ | ⟨s, s', rfl, rfl, rfl, moves⟩
    · cases moves with
      | build v c =>
        refine ⟨before.upstreamIp, rest ?_, fun snap sent => absurd sent (unsent snap)⟩
        rintro snap ⟨⟩
        exact ⟨v, c, by rw [before.upstreamIp], Or.inr ⟨i, member⟩⟩
      | fail v =>
        exact ⟨before.upstreamIp, rest (by simp), fun snap sent => absurd sent (unsent snap)⟩
      | publish snap =>
        refine ⟨before.upstreamIp, rest (by simp), ?_⟩
        intro other sent
        have same : snap = other := congrArg Watch.value sent
        exact same ▸ own snap rfl
    · exact ⟨before.upstreamIp, rest (by simp), fun snap sent => absurd sent (unsent snap)⟩

theorem history_minted (run : exec server.next (start ip cert) es = some st) :
    ∀ snap ∈ history ip cert es, Minted ip cert es snap := by
  have first : MintedSoFar ip cert es (start ip cert) [.build "v1" ip cert] := by
    refine ⟨rfl, ?_, by simp [start]⟩
    intro snap member
    exact ⟨"v1", cert, List.mem_singleton.mp member, Or.inl rfl⟩
  have changes : ∀ s e t, server.next s e = some t → Changes (streams.channel s) (streams.channel t) :=
    fun _ _ _ h => next_changes h
  have last := exec_published ?_ ?_ changes run first
  · exact last.published
  · intro s published e t member before h _
    obtain ⟨upstreamIp, built, _⟩ := minted_tasks before member h
    exact ⟨upstreamIp, before.published, built⟩
  · intro s published e t v member before h sent
    obtain ⟨upstreamIp, built, new⟩ := minted_tasks before member h
    refine ⟨upstreamIp, ?_, built⟩
    intro snap inPublished
    rcases List.mem_append.mp inPublished with old | last
    · exact before.published snap old
    · exact List.mem_singleton.mp last ▸ new v sent

end Minting

theorem build_lookup_other {typeUrl : String} (other : typeUrl ≠ tSecret) (v v' ip : String)
    (c c' : CertPem) : (Snapshot.build v ip c).byType.lookup typeUrl =
      (Snapshot.build v' ip c').byType.lookup typeUrl := by
  simp only [Snapshot.build, insertAll, List.foldl_cons, List.foldl_nil, lookup_insert, if_neg other]

def heldTypes : List String := [tListener, tRoute, tCluster, tEndpoint, tSecret]

theorem build_holds {v ip typeUrl : String} {c : CertPem} {r : DiscoveryResponse}
    (built : (Snapshot.build v ip c).buildResponse typeUrl = some r) : typeUrl ∈ heldTypes := by
  obtain ⟨resources, held, _⟩ := Option.map_eq_some_iff.mp built
  simp only [Snapshot.build, insertAll, List.foldl_cons, List.foldl_nil, lookup_insert,
    AList.lookup_empty] at held
  simp only [heldTypes, List.mem_cons, List.not_mem_nil, or_false]
  split_ifs at held <;> simp_all

theorem short_inj : ∀ a ∈ heldTypes, ∀ b ∈ heldTypes,
    (short a).length = (short b).length ∧ (short a = short b → a = b) := by decide

theorem nonce_inj {u v : Snapshot} {a b : String} {r q : DiscoveryResponse} (heldA : a ∈ heldTypes)
    (heldB : b ∈ heldTypes) (first : u.buildResponse a = some r) (second : v.buildResponse b = some q)
    (same : r.nonce = q.nonce) : a = b ∧ u.version = v.version := by
  obtain ⟨_, _, rfl⟩ := Option.map_eq_some_iff.mp first
  obtain ⟨_, _, rfl⟩ := Option.map_eq_some_iff.mp second
  obtain ⟨length, inj⟩ := short_inj a heldA b heldB
  simp only [String.append_assoc] at same
  obtain ⟨front, back⟩ := string_append_inj length same
  exact ⟨inj front, (string_append_inj rfl back).2⟩

/- Whole runs -/

section Runs
variable {ip : String} {cert : CertPem} {es : List Step} {st : State} {i : Nat} {s : AdsStream}

/-- `places` gives each response the place in `published` that it was rendered from;
    the places never go back, and of one type each is later than the last. -/
structure InHistory (published : List Snapshot) (responses : List DiscoveryResponse)
    (places : List (DiscoveryResponse × Nat)) : Prop where
  responses : places.map Prod.fst = responses
  rendered : ∀ x ∈ places, ∃ snap, published[x.2]? = some snap ∧
    snap.buildResponse x.1.typeUrl = some x.1
  forward : places.Pairwise fun later earlier => earlier.2 ≤ later.2 ∧
    (later.1.typeUrl = earlier.1.typeUrl → earlier.2 < later.2)

theorem in_history (run : exec server.next (start ip cert) es = some st)
    (found : st.tasks[i]? = some (.stream s)) :
    ∃ places, InHistory (history ip cert es) s.outbox.responses places := by
  obtain ⟨n, places, follows, _⟩ :=
    (sent_in_order (P := streams) (by simp [start]) run found rfl).sent
  obtain ⟨sent, rendered, forward⟩ := follows_rendered follows
  exact ⟨places, sent, rendered, forward⟩

/-- Of one type no two responses are of one version, so no two have one nonce. -/
theorem nonces_distinct {published : List Snapshot} {responses : List DiscoveryResponse}
    {places : List (DiscoveryResponse × Nat)} (inHistory : InHistory published responses places)
    (versions : (published.map Snapshot.version).Nodup)
    (minted : ∀ snap ∈ published, Minted ip cert es snap) :
    (responses.map DiscoveryResponse.nonce).Nodup := by
  rw [← inHistory.responses, List.map_map, List.Nodup, List.pairwise_map]
  apply inHistory.forward.imp_of_mem
  rintro later earlier inLater inEarlier ⟨_, advances⟩ same
  obtain ⟨u, atLater, builtLater⟩ := inHistory.rendered later inLater
  obtain ⟨v, atEarlier, builtEarlier⟩ := inHistory.rendered earlier inEarlier
  have holds : ∀ {snap : Snapshot} {n : Nat} {r : DiscoveryResponse}, published[n]? = some snap →
      snap.buildResponse r.typeUrl = some r → r.typeUrl ∈ heldTypes := by
    intro snap n r atPlace built
    obtain ⟨w, c, rfl, _⟩ := minted snap (List.mem_of_getElem? atPlace)
    exact build_holds built
  obtain ⟨sameType, sameVersion⟩ :=
    nonce_inj (holds atLater builtLater) (holds atEarlier builtEarlier) builtLater builtEarlier same
  have forward := advances sameType
  have inside := (List.getElem?_eq_some_iff.mp atLater).1
  have index : later.2 = earlier.2 := by
    apply (List.getElem?_inj (by rwa [List.length_map]) versions).mp
    simp only [List.getElem?_map, atLater, atEarlier, Option.map_some, sameVersion]
  omega

/-- A client that follows the Secret is sent it again after a rotation. -/
def rotatedStream : List Step :=
  [.spawn .openStream, .step 0 (.request ⟨tSecret, "", "", none⟩), .step 0 .respond,
    .spawn .rotate, .step 1 (.mint (some ⟨"second", "key"⟩)), .step 1 .publish,
    .step 0 (.wake [tSecret]), .step 0 .deliver, .step 0 .deliver]

theorem rotated_stream_runs :
    ∃ st s, exec server.next (start "10.0.0.1" ⟨"first", "key"⟩) rotatedStream = some st ∧
      st.tasks[0]? = some (.stream s) ∧ s.outbox.responses.length = 2 := ⟨_, _, rfl, rfl, rfl⟩

/-- In every interleaving of fewer than 2^64 rotations, any of which may fail, with any
    number of streams: what a stream has sent follows the snapshots in the order in
    which they were advertised, only ever forward for each type, and no nonce comes
    back on it. -/
theorem responses_follow_rotations (run : exec server.next (start ip cert) es = some st)
    (few : es.countP IsRotate < 2 ^ 64) (found : st.tasks[i]? = some (.stream s)) :
    (∃ places, InHistory (history ip cert es) s.outbox.responses places) ∧
    ((history ip cert es).map Snapshot.version).Nodup ∧
    (s.outbox.responses.map DiscoveryResponse.nonce).Nodup := by
  have inHistory := in_history run found
  have versions := history_versions run few
  refine ⟨inHistory, versions, ?_⟩
  obtain ⟨places, inPlaces⟩ := inHistory
  exact nonces_distinct inPlaces versions (history_minted run)

theorem responses_follow_one_rotation :
    ∃ st s, exec server.next (start "10.0.0.1" ⟨"first", "key"⟩) rotatedStream = some st ∧
      st.tasks[0]? = some (.stream s) ∧ s.outbox.responses.length = 2 ∧
      (∃ places, InHistory (history "10.0.0.1" ⟨"first", "key"⟩ rotatedStream)
        s.outbox.responses places) ∧
      (s.outbox.responses.map DiscoveryResponse.nonce).Nodup := by
  obtain ⟨st, s, run, found, sent⟩ := rotated_stream_runs
  obtain ⟨inHistory, _, nonces⟩ := responses_follow_rotations run (by decide) found
  exact ⟨st, s, run, found, sent, inHistory, nonces⟩

/-- A rotation moves the Secret alone: every other resource that is ever sent is the
    same for every version and certificate, and every Secret is one whole certificate,
    chain and key, that was minted in the run. -/
theorem secrets_travel_alone (run : exec server.next (start ip cert) es = some st)
    (found : st.tasks[i]? = some (.stream s)) :
    ∀ r ∈ s.outbox.responses,
      (r.typeUrl ≠ tSecret →
        ∀ v c, (Snapshot.build v ip c).byType.lookup r.typeUrl = some r.resources) ∧
      (r.typeUrl = tSecret → ∃ c, (c = cert ∨ ∃ j, .step j (.mint (some c)) ∈ es) ∧
        r.resources = [any tSecret (.secret (secret c))]) := by
  intro r member
  obtain ⟨places, inHistory⟩ := in_history run found
  rw [← inHistory.responses] at member
  obtain ⟨x, inPlaces, rfl⟩ := List.mem_map.mp member
  obtain ⟨snap, atPlace, built⟩ := inHistory.rendered x inPlaces
  obtain ⟨v, c, rfl, minted⟩ := history_minted run snap (List.mem_of_getElem? atPlace)
  obtain ⟨resources, held, eq⟩ := Option.map_eq_some_iff.mp built
  have same : resources = x.1.resources := congrArg DiscoveryResponse.resources eq
  constructor
  · intro other v' c'
    rw [build_lookup_other other v' v ip c' c, held, same]
  · intro isSecret
    refine ⟨c, minted, ?_⟩
    rw [isSecret, build_secret] at held
    rw [← same]
    exact (Option.some.inj held).symm

theorem secret_of_one_rotation :
    ∃ st s, exec server.next (start "10.0.0.1" ⟨"first", "key"⟩) rotatedStream = some st ∧
      st.tasks[0]? = some (.stream s) ∧ s.outbox.responses.length = 2 ∧
      ∀ r ∈ s.outbox.responses, r.typeUrl = tSecret →
        ∃ c, (c = ⟨"first", "key"⟩ ∨ ∃ j, .step j (.mint (some c)) ∈ rotatedStream) ∧
          r.resources = [any tSecret (.secret (secret c))] := by
  obtain ⟨st, s, run, found, sent⟩ := rotated_stream_runs
  exact ⟨st, s, run, found, sent, fun r member => (secrets_travel_alone run found r member).2⟩

/- Catching up -/

/-- The steps of its own after which a stream waits with the latest snapshot seen: the
    sends of the arm it is in, and of the watch arm if a change is pending. -/
def stepsLeft (w : Control) (s : AdsStream) : Nat :=
  (match s.phase with
    | .subscribing _ _ => 1
    | .watching _ todo => todo.length + 1
    | _ => 0) +
  if s.receiver.seen = w.advertised.stamp then 0 else s.subscribed.elems.length + 2

theorem steps_left (w : Control) (s : AdsStream) :
    (readerOf s).remaining w.advertised = stepsLeft w s := by
  unfold Reader.remaining stepsLeft readerOf
  cases s.phase <;> rfl

/-- In the run the stream has been sent a subscribe request for the type. -/
def Subscribed (es : List Step) (i : Nat) (typeUrl : String) : Prop :=
  ∃ r, .step i (.request r) ∈ es ∧ r.typeUrl = typeUrl ∧ ¬ r.IsNack ∧ r.responseNonce = ""

def lastOf (o : TlsServer.Outbox) (typeUrl : String) : Option DiscoveryResponse :=
  o.responses.find? fun r => r.typeUrl = typeUrl

/-- The stream waits with the latest snapshot seen, and has sent it last for every type
    of which `subscribed` holds. -/
def UpToDate (subscribed : String → Prop) (i : Nat) (st : State) : Prop :=
  ∃ s, st.tasks[i]? = some (.stream s) ∧ s.phase = .select ∧
    s.receiver.UpToDate st.shared.advertised ∧ ∀ typeUrl resp, subscribed typeUrl →
      st.shared.advertised.value.buildResponse typeUrl = some resp →
      lastOf s.outbox typeUrl = some resp

theorem subscribe_asks (r : DiscoveryRequest) (clean : ¬ r.IsNack) (noNonce : r.responseNonce = "") :
    Asks streams (.request r) r.typeUrl := by
  intro w t w' t' moved
  have step : stepTask w t (.request r) = some (w', t') := moved
  rcases task_step step with ⟨q, q', rfl, rfl, moves⟩ | ⟨s, s', rfl, rfl, rfl, moves⟩
  · cases moves
  · cases moves with
    | note r phase quiet =>
      rcases quiet with isNack | answers
      · exact absurd isNack clean
      · exact absurd noNonce answers
    | subscribe r phase clean noNonce => exact ⟨_, rfl, mem_insert.mpr (Or.inl rfl), rfl⟩

theorem quiet_step {st st' : State} {e : Step} (quiet : ∀ j, e ≠ .step j .publish)
    (h : server.next st e = some st') : st'.shared.advertised = st.shared.advertised := by
  rcases next_cases h with ⟨call, rfl, rfl⟩ | ⟨j, a, t, w, t', rfl, _, moved, rfl⟩
  · cases call <;> rfl
  · have step : stepTask st.shared t a = some (w, t') := moved
    rcases task_step step with ⟨r, r', rfl, rfl, moves⟩ | ⟨_, _, _, _, rfl, _⟩
    · cases moves with
      | publish snap => exact absurd rfl (quiet j)
      | _ => rfl
    · rfl

theorem stage_idle {s : AdsStream} : (readerOf s).stage = .idle ↔ s.phase = .select := by
  cases phase : s.phase <;> simp [readerOf, stageOf, phase]

theorem stage_open (isOpen : s.phase ≠ .closed) :
    (readerOf s).stage ≠ .closed ∧ (readerOf s).stage ≠ .away := by
  cases phase : s.phase <;> simp_all [readerOf, stageOf]

theorem caught_up_current (run : exec server.next (start ip cert) es = some st)
    (few : es.countP IsRotate < 2 ^ 64) :
    streams.CaughtUp i st ↔ UpToDate (Subscribed es i) i st := by
  rw [caught_up_served sessions (by simp [start]) run (history_distinct run few)]
  · exact exists_congr fun s => and_congr Iff.rfl (and_congr stage_idle Iff.rfl)
  · rintro typeUrl ⟨r, asked, rfl, clean, noNonce⟩
    exact ⟨.request r, asked, subscribe_asks r clean noNonce⟩

theorem stream_left (found : st.tasks[i]? = some (.stream s)) (isOpen : s.phase ≠ .closed) :
    streams.Left i (stepsLeft st.shared s) st := by
  rw [← steps_left]
  exact left_at sessions found (stage_open isOpen).1 (stage_open isOpen).2

/-- Once rotations pause, an open stream to which nothing new is said takes at most
    `stepsLeft` steps, whatever the others do in between; when it has taken them it has
    sent the advertised certificate, and all else it serves, last; and it can always
    take them. -/
theorem rotation_reaches_stream (run : exec server.next (start ip cert) es = some st)
    (few : es.countP IsRotate < 2 ^ 64) (found : st.tasks[i]? = some (.stream s))
    (isOpen : s.phase ≠ .closed) :
    (∀ fs st', exec server.next st fs = some st' → (∀ j, .step j .publish ∉ fs) →
      (es ++ fs).countP IsRotate < 2 ^ 64 → (∀ a, .step i a ∈ fs → ownAct a) →
      fs.countP (streams.owns i) ≤ stepsLeft st.shared s ∧
        (fs.countP (streams.owns i) = stepsLeft st.shared s ↔
          UpToDate (Subscribed (es ++ fs) i) i st')) ∧
    ∃ (acts : List Act) (st' : State), acts.length = stepsLeft st.shared s ∧
      exec server.next st (acts.map (.step i)) = some st' ∧ UpToDate (Subscribed es i) i st' := by
  have reached := reaches_current (stream_left found isOpen)
    (fun fs _ => (∀ j, .step j .publish ∉ fs) ∧ (es ++ fs).countP IsRotate < 2 ^ 64)
    (fun fs st' => UpToDate (Subscribed (es ++ fs) i) i st') ?_ ?_ ?_
  · obtain ⟨most, acts, st', length, more, s', found', phase, seen, current⟩ := reached
    refine ⟨fun fs st' more quiet fewer own => most fs st' more ⟨quiet, fewer⟩ own,
      acts, st', length, more, s', found', phase, seen, ?_⟩
    rintro typeUrl resp ⟨r, asked, rest⟩
    exact current typeUrl resp ⟨r, List.mem_append_left _ asked, rest⟩
  · rintro fs st' more ⟨quiet, _⟩
    apply exec_same (f := fun st => (streams.channel st).stamp) ?_ more
    intro e member st st' h
    exact congrArg Watch.stamp (quiet_step (fun j eq => quiet j (eq ▸ member)) h)
  · -- its own steps are no rotations
    intro acts st' own _
    constructor
    · intro j member
      cases own _ (mem_steps.mp member).2
    · have noRotate : (acts.map (Event.step (A := Call) i)).countP IsRotate = 0 := by
        rw [List.countP_eq_zero]
        intro e member
        obtain ⟨a, _, rfl⟩ := List.mem_map.mp member
        simp [IsRotate]
      rw [List.countP_append, noRotate]
      exact few
  · rintro fs st' more _ ⟨_, fewer⟩
    exact caught_up_current (exec_append_some.mpr ⟨st, run, more⟩) fewer

theorem one_rotation_reaches_stream :
    ∃ st s, exec server.next (start "10.0.0.1" ⟨"first", "key"⟩) (rotatedStream.take 6) = some st ∧
      st.tasks[0]? = some (.stream s) ∧ stepsLeft st.shared s = 3 ∧
      ∃ (acts : List Act) (st' : State), acts.length = stepsLeft st.shared s ∧
        exec server.next st (acts.map (.step 0)) = some st' ∧
        UpToDate (Subscribed (rotatedStream.take 6) 0) 0 st' := by
  obtain ⟨st, s, run, found, isOpen, left⟩ :
      ∃ st s, exec server.next (start "10.0.0.1" ⟨"first", "key"⟩) (rotatedStream.take 6) = some st ∧
        st.tasks[0]? = some (.stream s) ∧ s.phase ≠ .closed ∧ stepsLeft st.shared s = 3 :=
    ⟨_, _, rfl, rfl, by simp, by decide⟩
  exact ⟨st, s, run, found, left, (rotation_reaches_stream run (by decide) found isOpen).2⟩

end Runs

/- One client and the others -/

def clients : Silent server where
  silent t := ∃ s, t = .stream s
  kind w t a w' t' moved := by
    have step : stepTask w t a = some (w', t') := moved
    rcases task_step step with ⟨r, r', rfl, rfl, _⟩ | ⟨s, s', rfl, rfl, _, _⟩
    · simp
    · simp
  shared w t a w' t' isStream moved := by
    obtain ⟨s, rfl⟩ := isStream
    have step : stepTask w (.stream s) a = some (w', t') := moved
    rcases task_step step with ⟨r, r', eq, _, _⟩ | ⟨_, _, _, _, same, _⟩
    · cases eq
    · exact same

/-- Whatever some of the clients ask, acknowledge or reject: without all of that the run
    goes as before for everyone else, the rotations and the other streams. -/
theorem other_clients_unseen {st st' : State} {es : List Step}
    (run : exec server.next st es = some st') (muted : Nat → Bool)
    (onlyClients : ∀ j t, muted j → st'.tasks[j]? = some t → ∃ s, t = .stream s) :
    ∃ st'', exec server.next st (es.filter (heard muted)) = some st'' ∧
      st''.shared = st'.shared ∧ ∀ i, ¬ muted i → st''.tasks[i]? = st'.tasks[i]? := by
  obtain ⟨st'', quiet, alike⟩ := muted_run clients run onlyClients (alike_refl muted st)
  exact ⟨st'', quiet, alike.shared, alike.tasks⟩

def noisyNeighbour : List Step :=
  rotatedStream ++ [.spawn .openStream, .step 2 (.request ⟨tListener, "v1", "lds-v1", some "no"⟩),
    .step 2 .close]

theorem noisy_neighbour_unseen :
    ∃ st st'', exec server.next (start "10.0.0.1" ⟨"first", "key"⟩) noisyNeighbour = some st ∧
      exec server.next (start "10.0.0.1" ⟨"first", "key"⟩)
        (noisyNeighbour.filter (heard fun j => j == 2)) = some st'' ∧
      st''.shared = st.shared ∧ st''.tasks[0]? = st.tasks[0]? := by
  obtain ⟨st, run, isStream⟩ :
      ∃ st, exec server.next (start "10.0.0.1" ⟨"first", "key"⟩) noisyNeighbour = some st ∧
        ∃ s, st.tasks[2]? = some (.stream s) := ⟨_, rfl, _, rfl⟩
  obtain ⟨s, found⟩ := isStream
  obtain ⟨st'', quiet, same, others⟩ := other_clients_unseen run (fun j => j == 2) (by
    intro j t muted atJ
    rw [eq_of_beq muted, found] at atJ
    exact ⟨s, (Option.some.inj atJ).symm⟩)
  exact ⟨st, st'', run, quiet, same, others 0 (by decide)⟩

end TlsStreams
