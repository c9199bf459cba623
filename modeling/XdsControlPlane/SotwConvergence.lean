import XdsControlPlane.SotwServer

/-!
Every stream ends up on the advertised snapshot. The number in a version stands
for one snapshot while fewer than 2^64 pushes were made, so `push_if_new` skips
a send only when the last response is already the right one. Between the watch
value a stream has seen and what it has sent stand the snapshot it is sending
and the types it has still to visit; nothing else can be out of date.
-/
namespace SotwConvergence
open ExecutableRuns SharedCells KeyedMaps EnvoyMessages SotwSnapshots SotwServer

structure WorldOk (w : World) : Prop where
  counted : w.version = UInt64.ofNat w.issued.length
  numbered : Numbered Snapshot.version versionLabel w.issued
  built : ∀ snap ∈ w.issued, ∃ version broken, snap = Snapshot.build version w.upstreamIp broken
  advertised : w.advertised.value ∈ w.issued
  lastGood : w.lastGood ∈ w.issued

structure OutboxOk (issued : List Snapshot) (o : Outbox) : Prop where
  tracked : ∀ typeUrl, o.sentVersion.lookup typeUrl = (o.last typeUrl).map (·.versionInfo)
  rendered : ∀ r ∈ o.responses, ∃ snap ∈ issued, snap.buildResponse r.typeUrl = some r

/-- The stream has sent `cur` for every type asked for, save those it owes. -/
structure Agrees (s : AdsStream) (cur : Snapshot) : Prop where
  sending : ∀ snap, s.phase.sending = some snap → snap = cur
  current : ∀ typeUrl resp, s.Asked typeUrl → typeUrl ∉ s.phase.owed →
    cur.buildResponse typeUrl = some resp → s.outbox.last typeUrl = some resp

structure StreamOk (w : World) (s : AdsStream) : Prop where
  outbox : OutboxOk w.issued s.outbox
  sending : ∀ snap, s.phase.sending = some snap → snap ∈ w.issued
  nacking : ∀ good, s.phase = .nacking good → good ∈ w.issued
  asked : ∀ typeUrl, s.Asked typeUrl → typeUrl ∈ s.subscribed
  settled : s.phase ≠ .closed → w.issued.length ≤ 2 ^ 64 →
    Settled w.advertised s.receiver (Agrees s)

def PushOk (w : World) : Push → Prop
  | .numbered _ snap => snap ∈ w.issued
  | .stored snap => snap ∈ w.issued
  | .done => True

def TaskOk (w : World) : ControlTask → Prop
  | .push p => PushOk w p
  | .stream s => StreamOk w s

/- push_if_new -/

theorem push_if_new_cases (typeUrl : String) (snap : Snapshot) (o : Outbox) :
    (pushIfNew typeUrl snap o = o ∧ (o.sentVersion.lookup typeUrl = some snap.version ∨
      snap.buildResponse typeUrl = none)) ∨
    (∃ resp, snap.buildResponse typeUrl = some resp ∧
      o.sentVersion.lookup typeUrl ≠ some snap.version ∧
      pushIfNew typeUrl snap o =
        ⟨o.sentVersion.insert typeUrl snap.version, resp :: o.responses⟩) := by
  unfold pushIfNew
  split
  · rename_i same
    exact Or.inl ⟨rfl, Or.inl same⟩
  · rename_i moved
    cases built : snap.buildResponse typeUrl with
    | none => exact Or.inl ⟨rfl, Or.inr rfl⟩
    | some resp => exact Or.inr ⟨resp, rfl, moved, rfl⟩

theorem last_cons (m : HashMap String String) (resp : DiscoveryResponse)
    (rs : List DiscoveryResponse) (typeUrl : String) :
    Outbox.last ⟨m, resp :: rs⟩ typeUrl =
      if resp.typeUrl = typeUrl then some resp else Outbox.last ⟨m, rs⟩ typeUrl := by
  simp only [Outbox.last, List.find?_cons]
  split <;> simp_all

theorem last_mem {o : Outbox} {typeUrl : String} {r : DiscoveryResponse}
    (h : o.last typeUrl = some r) : r ∈ o.responses ∧ r.typeUrl = typeUrl :=
  ⟨List.mem_of_find?_eq_some h, by simpa using List.find?_some h⟩

theorem push_if_new_last_other {typeUrl other : String} (different : other ≠ typeUrl)
    (snap : Snapshot) (o : Outbox) : (pushIfNew typeUrl snap o).last other = o.last other := by
  rcases push_if_new_cases typeUrl snap o with ⟨same, _⟩ | ⟨resp, built, _, sent⟩
  · rw [same]
  · have named := (build_response_fields built).1
    rw [sent, last_cons, if_neg (by rw [named]; exact fun eq => different eq.symm)]
    rfl

theorem push_if_new_ok {issued : List Snapshot} {o : Outbox} (ok : OutboxOk issued o)
    {snap : Snapshot} (known : snap ∈ issued) (typeUrl : String) :
    OutboxOk issued (pushIfNew typeUrl snap o) := by
  rcases push_if_new_cases typeUrl snap o with ⟨same, _⟩ | ⟨resp, built, _, sent⟩
  · rw [same]; exact ok
  · obtain ⟨named, version, _⟩ := build_response_fields built
    rw [sent]
    refine ⟨fun other => ?_, fun r member => ?_⟩
    · rw [lookup_insert, last_cons, named]
      by_cases same : other = typeUrl
      · simp [same, version]
      · rw [if_neg same, if_neg fun eq => same eq.symm]
        exact ok.tracked other
    · rcases List.mem_cons.mp member with rfl | old
      · exact ⟨snap, known, named.symm ▸ built⟩
      · exact ok.rendered r old

/-- After the call the last response of the type is the snapshot's, whether it
    was sent now or, under the same version, before. -/
theorem push_if_new_last {issued : List Snapshot} {o : Outbox} (ok : OutboxOk issued o)
    (unique : ∀ a ∈ issued, ∀ b ∈ issued, a.version = b.version → a = b)
    {snap : Snapshot} (known : snap ∈ issued) {typeUrl : String} {resp : DiscoveryResponse}
    (built : snap.buildResponse typeUrl = some resp) :
    (pushIfNew typeUrl snap o).last typeUrl = some resp := by
  rcases push_if_new_cases typeUrl snap o with ⟨same, skipped⟩ | ⟨resp', built', _, sent⟩
  · have sameVersion : o.sentVersion.lookup typeUrl = some snap.version := by
      rcases skipped with sameVersion | unheld
      · exact sameVersion
      · simp [unheld] at built
    rw [ok.tracked] at sameVersion
    obtain ⟨old, lastOld, versionOld⟩ := Option.map_eq_some_iff.mp sameVersion
    obtain ⟨member, named⟩ := last_mem lastOld
    obtain ⟨origin, knownOrigin, builtOrigin⟩ := ok.rendered old member
    have sameSnap : origin = snap := by
      apply unique origin knownOrigin snap known
      rw [← (build_response_fields builtOrigin).2.1, versionOld]
    rw [same, lastOld, ← builtOrigin, sameSnap, named, built]
  · rw [sent, last_cons, (build_response_fields built').1, if_pos rfl, ← built', built]

/- The world and the other tasks while one task steps -/

structure Evolves (w w' : World) : Prop where
  issued : ∃ later, w'.issued = w.issued ++ later
  advertised : w'.advertised = w.advertised ∨ ∃ snap, w'.advertised = w.advertised.send snap

theorem evolves_mem {w w' : World} (e : Evolves w w') {snap : Snapshot} (h : snap ∈ w.issued) :
    snap ∈ w'.issued := by
  obtain ⟨later, eq⟩ := e.issued
  rw [eq]
  exact List.mem_append_left later h

theorem evolves_few {w w' : World} (e : Evolves w w') (few : w'.issued.length ≤ 2 ^ 64) :
    w.issued.length ≤ 2 ^ 64 := by
  obtain ⟨later, eq⟩ := e.issued
  rw [eq, List.length_append] at few
  omega

theorem stream_ok_evolves {w w' : World} (e : Evolves w w') {s : AdsStream}
    (ok : StreamOk w s) : StreamOk w' s := by
  constructor
  case outbox =>
    refine ⟨ok.outbox.tracked, fun r member => ?_⟩
    obtain ⟨snap, known, built⟩ := ok.outbox.rendered r member
    exact ⟨snap, evolves_mem e known, built⟩
  case sending => exact fun snap h => evolves_mem e (ok.sending snap h)
  case nacking => exact fun good h => evolves_mem e (ok.nacking good h)
  case asked => exact ok.asked
  case settled =>
    intro isOpen few
    have before := ok.settled isOpen (evolves_few e few)
    rcases e.advertised with same | ⟨snap, sent⟩
    · rwa [same]
    · rw [sent]; exact settled_send before snap

theorem task_ok_evolves {w w' : World} (e : Evolves w w') {t : ControlTask} (ok : TaskOk w t) :
    TaskOk w' t := by
  cases t with
  | stream s => exact stream_ok_evolves e ok
  | push p =>
    cases p with
    | numbered kind snap => exact evolves_mem e ok
    | stored snap => exact evolves_mem e ok
    | done => trivial

/- Every task keeps its own part -/

theorem asked_taking {s : AdsStream} {r : DiscoveryRequest} {phase : Phase} {typeUrl : String} :
    (s.taking r phase).Asked typeUrl ↔
      s.Asked typeUrl ∨ (r.typeUrl = typeUrl ∧ r.IsSubscribe) := by
  simp only [AdsStream.Asked, AdsStream.taking, List.mem_append, List.mem_singleton]
  constructor
  · rintro ⟨q, old | rfl, asked⟩
    · exact Or.inl ⟨q, old, asked⟩
    · exact Or.inr asked
  · rintro (⟨q, old, asked⟩ | asked)
    · exact ⟨q, Or.inl old, asked⟩
    · exact ⟨r, Or.inr rfl, asked⟩

theorem issued_unique {w : World} (ok : WorldOk w) (few : w.issued.length ≤ 2 ^ 64) :
    ∀ a ∈ w.issued, ∀ b ∈ w.issued, a.version = b.version → a = b :=
  fun _ ha _ hb same => numbered_unique version_label_injective ok.numbered few ha hb same

theorem evolves_of_same {w w' : World} (issued : w'.issued = w.issued)
    (advertised : w'.advertised = w.advertised) : Evolves w w' :=
  ⟨⟨[], by rw [issued, List.append_nil]⟩, Or.inl advertised⟩

theorem push_step_evolves {w w' : World} {p p' : Push} (h : PushStep w p w' p') :
    Evolves w w' := by
  cases h with
  | store snap => exact evolves_of_same rfl rfl
  | publishBroken snap => exact ⟨⟨[], by simp⟩, Or.inr ⟨snap, rfl⟩⟩
  | publishGood snap => exact ⟨⟨[], by simp⟩, Or.inr ⟨snap, rfl⟩⟩

theorem stream_step_evolves {w w' : World} {s s' : AdsStream} {a : Act}
    (h : StreamStep w s a w' s') : Evolves w w' := by
  cases h with
  | rollback good phase => exact ⟨⟨[], by simp⟩, Or.inr ⟨good, rfl⟩⟩
  | _ => exact evolves_of_same rfl rfl

theorem push_step_ok {w w' : World} {p p' : Push} (world : WorldOk w) (ok : PushOk w p)
    (h : PushStep w p w' p') : WorldOk w' ∧ PushOk w' p' := by
  cases h with
  | store snap => exact ⟨{ world with lastGood := ok }, ok⟩
  | publishBroken snap => exact ⟨{ world with advertised := ok }, trivial⟩
  | publishGood snap => exact ⟨{ world with advertised := ok }, trivial⟩

theorem stream_step_world {w w' : World} {s s' : AdsStream} {a : Act} (world : WorldOk w)
    (ok : StreamOk w s) (h : StreamStep w s a w' s') : WorldOk w' := by
  cases h with
  | rollback good phase =>
    exact { world with advertised := ok.nacking good phase }
  | _ => exact { world with }

/-- Taking a request leaves what was sent alone; only a subscribe adds a type
    that has to be sent, and the stream owes exactly that one. -/
theorem taking_ok {w : World} {s : AdsStream} (ok : StreamOk w s) (phase : s.phase = .select)
    (r : DiscoveryRequest) {next : Phase}
    (sending : ∀ snap, next.sending = some snap → snap = w.advertised.value)
    (nacking : ∀ good, next = .nacking good → good ∈ w.issued)
    (advertised : w.advertised.value ∈ w.issued)
    (owes : r.IsSubscribe → r.typeUrl ∈ next.owed) : StreamOk w (s.taking r next) := by
  constructor
  case outbox => exact ok.outbox
  case sending => exact fun snap h => sending snap h ▸ advertised
  case nacking => exact nacking
  case asked =>
    intro typeUrl asked
    rcases asked_taking.mp asked with before | ⟨rfl, _⟩
    · exact mem_insert.mpr (Or.inr (ok.asked typeUrl before))
    · exact mem_insert.mpr (Or.inl rfl)
  case settled =>
    intro _ few
    refine settled_imp (ok.settled (by simp [phase]) few) fun _ agrees => ⟨sending, ?_⟩
    intro typeUrl resp asked notOwed built
    rcases asked_taking.mp asked with before | ⟨rfl, isSubscribe⟩
    · exact agrees.current typeUrl resp before (by simp [phase, Phase.owed]) built
    · exact False.elim (notOwed (owes isSubscribe))

theorem sending_ok {w : World} {s : AdsStream} (world : WorldOk w) (ok : StreamOk w s)
    {typeUrl : String} {snap : Snapshot} {next : Phase} (pays : Pays s.phase next typeUrl snap) :
    StreamOk w { s with outbox := pushIfNew typeUrl snap s.outbox, phase := next } := by
  have known := ok.sending snap pays.sending
  constructor
  case outbox => exact push_if_new_ok ok.outbox known typeUrl
  case sending => exact fun snap' h => pays.nextSending snap' h ▸ known
  case nacking => exact fun good h => absurd h (pays.notNacking good)
  case asked => exact ok.asked
  case settled =>
    intro _ few
    refine settled_imp (ok.settled (pays_open pays) few) fun _ agrees => ?_
    have isCurrent : snap = w.advertised.value := agrees.sending snap pays.sending
    refine ⟨fun snap' h => (pays.nextSending snap' h).trans isCurrent, ?_⟩
    intro other resp asked notOwed built
    by_cases same : other = typeUrl
    · subst same
      exact push_if_new_last ok.outbox (issued_unique world few) known (isCurrent ▸ built)
    · have notBefore : other ∉ s.phase.owed := fun before =>
        (pays.paid other before).elim same notOwed
      rw [push_if_new_last_other same]
      exact agrees.current other resp asked notBefore built

theorem stream_step_ok {w w' : World} {s s' : AdsStream} {a : Act} (world : WorldOk w)
    (ok : StreamOk w s) (h : StreamStep w s a w' s') : StreamOk w' s' := by
  cases h with
  | nack r phase isNack =>
    refine taking_ok ok phase r (by simp [Phase.sending]) (fun good h => ?_) world.advertised
      fun isSubscribe => ?_
    · cases h; exact world.lastGood
    · simp [DiscoveryRequest.IsNack, isSubscribe.1] at isNack
  | subscribe r phase isSubscribe =>
    exact taking_ok ok phase r (by simp [Phase.sending, eq_comm]) (by simp) world.advertised
      (by simp [Phase.owed])
  | ack r phase notNack answers =>
    have taken : StreamOk w (s.taking r .select) :=
      taking_ok ok phase r (by simp [Phase.sending]) (by simp) world.advertised
        fun isSubscribe => absurd isSubscribe.2 answers
    have evolves : Evolves w { w with acked := w.acked ++ [r.versionInfo] } :=
      evolves_of_same rfl rfl
    exact stream_ok_evolves evolves taken
  | respond typeUrl snap phase => exact sending_ok world ok (respond_pays phase)
  | rollback good phase =>
    -- the send puts this stream behind like every other one
    refine { ok with sending := by simp [Phase.sending], nacking := by simp, settled := ?_ }
    exact fun _ few => settled_send (ok.settled (by simp [phase]) few) good
  | wake order phase behind visits =>
    refine { ok with sending := ?_, nacking := by simp, settled := fun _ _ => settled_now rfl ⟨?_, ?_⟩ }
    · intro snap h
      cases h; exact world.advertised
    · simp [Phase.sending, eq_comm]
    · intro typeUrl resp asked notOwed _
      exact absurd (visits.mem_iff.mpr (ok.asked typeUrl asked)) notOwed
  | deliver snap typeUrl todo phase => exact sending_ok world ok (deliver_pays phase)
  | finish snap phase =>
    refine { ok with sending := by simp [Phase.sending], nacking := by simp, settled := fun _ few => ?_ }
    refine settled_imp (ok.settled (by simp [phase]) few) fun _ agrees => ⟨by simp [Phase.sending], ?_⟩
    intro typeUrl resp asked _ built
    exact agrees.current typeUrl resp asked (by simp [phase, Phase.owed]) built
  | close notNacking =>
    exact { ok with
      sending := by simp [Phase.sending]
      nacking := by simp
      settled := fun isOpen => absurd rfl isOpen }

/- Whole runs -/

theorem startup_ok (ip : String) : WorldOk (startup ip) := by
  constructor
  case counted => rfl
  case numbered =>
    intro k x found
    obtain ⟨rfl, rfl⟩ : k = 0 ∧ x = Snapshot.good "v1" ip := by
      cases k <;> simp_all [startup]
    exact (by decide : "v1" = versionLabel (UInt64.ofNat 1))
  case built =>
    intro snap member
    rcases List.mem_singleton.mp member with rfl
    exact ⟨"v1", false, rfl⟩
  case advertised => exact List.mem_singleton.mpr rfl
  case lastGood => exact List.mem_singleton.mpr rfl

theorem spawn_evolves (w : World) (c : Call) : Evolves w (spawn w c).1 := by
  cases c with
  | push kind => exact ⟨⟨_, rfl⟩, Or.inl rfl⟩
  | openStream => exact evolves_of_same rfl rfl

theorem opened_ok (w : World) : StreamOk w (.opened w) := by
  have taken : (AdsStream.opened w).phase.sending = none := rfl
  have unasked : ∀ typeUrl, ¬ (AdsStream.opened w).Asked typeUrl := by
    simp [AdsStream.opened, AdsStream.Asked]
  constructor
  case outbox => exact ⟨fun typeUrl => rfl, nofun⟩
  case sending => simp [taken]
  case nacking => simp [AdsStream.opened]
  case asked => exact fun typeUrl asked => absurd asked (unasked typeUrl)
  case settled =>
    intro _ _
    exact settled_now rfl ⟨by simp [taken], fun typeUrl _ asked => absurd asked (unasked typeUrl)⟩

theorem spawn_ok {w : World} (ok : WorldOk w) (c : Call) :
    WorldOk (spawn w c).1 ∧ TaskOk (spawn w c).1 (spawn w c).2 := by
  cases c with
  | push kind =>
    have number : fetchAddOne w.version = UInt64.ofNat (w.issued.length + 1) := by
      rw [ok.counted, fetch_add_one_of_count]
    have label : (kind.snapshot (versionLabel (fetchAddOne w.version)) w.upstreamIp).version =
        versionLabel (fetchAddOne w.version) := by cases kind <;> rfl
    refine ⟨?_, List.mem_append_right _ (List.mem_singleton.mpr rfl)⟩
    constructor
    case counted =>
      simp only [spawn, nextVersion, List.length_append, List.length_singleton, number]
    case numbered => exact numbered_append ok.numbered (by rw [← number]; exact label)
    case built =>
      intro snap member
      rcases List.mem_append.mp member with old | new
      · exact ok.built snap old
      · rw [List.mem_singleton.mp new]
        cases kind with
        | good => exact ⟨_, false, rfl⟩
        | broken => exact ⟨_, true, rfl⟩
    case advertised => exact List.mem_append_left _ ok.advertised
    case lastGood => exact List.mem_append_left _ ok.lastGood
  | openStream =>
    exact ⟨ok, opened_ok w⟩

theorem next_fresh {w : World} (ok : WorldOk w) (kind : PushKind)
    (few : (spawn w (.push kind)).1.issued.length ≤ 2 ^ 64) :
    ∀ old ∈ w.issued, old.version ≠
      (kind.snapshot (versionLabel (fetchAddOne w.version)) w.upstreamIp).version := by
  intro old issued same
  have world := (spawn_ok ok (.push kind)).1
  obtain ⟨k, atK⟩ := List.mem_iff_getElem?.mp issued
  have below := (List.getElem?_eq_some_iff.mp atK).1
  have label : (kind.snapshot (versionLabel (fetchAddOne w.version)) w.upstreamIp).version =
      versionLabel (fetchAddOne w.version) := by cases kind <;> rfl
  rw [ok.numbered k old atK, label, ok.counted, fetch_add_one_of_count] at same
  have long : (spawn w (.push kind)).1.issued.length = w.issued.length + 1 := by
    simp [spawn, nextVersion]
  have := number_injective (by omega) (by omega) (version_label_injective same)
  omega

abbrev ServerOk : State → Prop := Holds WorldOk fun _ => TaskOk

theorem server_ok_next {st st' : State} {e : Step} (ok : ServerOk st)
    (h : server.next st e = some st') : ServerOk st' := by
  refine holds_next (fun i w c _ world => spawn_ok world c)
    (fun i w c t _ world ok => task_ok_evolves (spawn_evolves w c) ok) ?_ ?_ (fun _ _ => trivial) ok h
  · intro i w t a w' t' world ok moved
    rcases task_step moved with ⟨p, p', rfl, rfl, step⟩ | ⟨s, s', rfl, rfl, step⟩
    · exact push_step_ok world ok step
    · exact ⟨stream_step_world world ok step, stream_step_ok world ok step⟩
  · intro i j w t a w' t' u world _ okU moved
    rcases task_step moved with ⟨p, p', rfl, rfl, step⟩ | ⟨s, s', rfl, rfl, step⟩
    · exact task_ok_evolves (push_step_evolves step) okU
    · exact task_ok_evolves (stream_step_evolves step) okU

theorem start_ok (ip : String) : ServerOk (start ip) := ⟨startup_ok ip, nofun⟩

theorem server_ok_exec {st st' : State} {es : List Step} (run : exec server.next st es = some st')
    (ok : ServerOk st) : ServerOk st' :=
  exec_invariant (fun _ _ _ before h => server_ok_next before h) run ok

def IsPush : Step → Bool
  | .spawn (.push _) => true
  | _ => false

/-- Every push takes one number and no other step takes any. -/
theorem issued_next {st st' : State} {e : Step} (h : server.next st e = some st') :
    st'.shared.issued.length = st.shared.issued.length + if IsPush e then 1 else 0 := by
  rcases next_cases h with ⟨c, rfl, rfl⟩ | ⟨i, a, t, w, t', rfl, _, moved, rfl⟩
  · cases c <;> simp [server, spawn, nextVersion, IsPush]
  · rcases task_step moved with ⟨p, p', rfl, rfl, step⟩ | ⟨s, s', rfl, rfl, step⟩ <;>
      cases step <;> simp [IsPush]

theorem issued_exec {st st' : State} {es : List Step} (run : exec server.next st es = some st') :
    st'.shared.issued.length = st.shared.issued.length + es.countP IsPush := by
  induction es generalizing st with
  | nil => cases run; simp
  | cons e es ih =>
    obtain ⟨mid, first, rest⟩ := exec_cons_some.mp run
    rw [ih rest, issued_next first, List.countP_cons]
    omega

theorem few_issued {ip : String} {st : State} {es : List Step}
    (run : exec server.next (start ip) es = some st) (few : es.countP IsPush < 2 ^ 64) :
    st.shared.issued.length ≤ 2 ^ 64 := by
  have count := issued_exec run
  simp only [start, startup, List.length_singleton] at count
  omega

/-- In every reachable state, a stream that waits in its `select!` with the
    latest watch value seen has last sent, for every type it was asked for and
    the snapshots hold, the advertised snapshot's response. -/
theorem idle_stream_current {ip : String} {st : State} {es : List Step}
    (run : exec server.next (start ip) es = some st) (few : es.countP IsPush < 2 ^ 64)
    {i : Nat} {s : AdsStream} (found : st.tasks[i]? = some (.stream s))
    (idle : s.phase = .select) (latest : s.receiver.UpToDate st.shared.advertised)
    {typeUrl : String} {resp : DiscoveryResponse} (asked : s.Asked typeUrl)
    (held : st.shared.advertised.value.buildResponse typeUrl = some resp) :
    s.outbox.last typeUrl = some resp := by
  have ok : StreamOk st.shared s := (server_ok_exec run (start_ok ip)).task i _ found
  have settled := ok.settled (by rw [idle]; nofun) (few_issued run few)
  exact (settled.settled latest).current typeUrl resp asked (by simp [idle, Phase.owed]) held

/-- Convergence of the whole set of types: whatever was pushed, requested and
    rejected, an idle stream is on one version, the advertised one. -/
theorem idle_stream_on_one_version {ip : String} {st : State} {es : List Step}
    (run : exec server.next (start ip) es = some st) (few : es.countP IsPush < 2 ^ 64)
    {i : Nat} {s : AdsStream} (found : st.tasks[i]? = some (.stream s))
    (idle : s.phase = .select) (latest : s.receiver.UpToDate st.shared.advertised) :
    ∀ typeUrl ∈ [tListener, tRoute, tCluster, tEndpoint], s.Asked typeUrl →
      ∃ resp, st.shared.advertised.value.buildResponse typeUrl = some resp ∧
        s.outbox.last typeUrl = some resp ∧
        resp.versionInfo = st.shared.advertised.value.version := by
  intro typeUrl member asked
  have world : WorldOk st.shared := (server_ok_exec run (start_ok ip)).shared
  obtain ⟨version, broken, built⟩ := world.built _ world.advertised
  obtain ⟨resp, held⟩ : ∃ resp, st.shared.advertised.value.buildResponse typeUrl = some resp :=
    Option.isSome_iff_exists.mp (built ▸ (build_holds_iff version _ broken typeUrl).mpr member)
  exact ⟨resp, held, idle_stream_current run few found idle latest asked held,
    (build_response_fields held).2.1⟩

theorem idle_stream_on_broken_version :
    ∃ st s resp, exec server.next (start "10.0.0.1") brokenPush = some st ∧
      st.tasks[0]? = some (.stream s) ∧ s.outbox.last tListener = some resp ∧
      resp.versionInfo = "v2" := by
  obtain ⟨st, s, run, found, idle, latest, asked, version⟩ :
      ∃ st s, exec server.next (start "10.0.0.1") brokenPush = some st ∧
        st.tasks[0]? = some (.stream s) ∧ s.phase = .select ∧
        s.receiver.UpToDate st.shared.advertised ∧ s.Asked tListener ∧
        st.shared.advertised.value.version = "v2" :=
    ⟨_, _, rfl, rfl, rfl, rfl, ⟨_, List.mem_cons_self, rfl, by decide⟩, by decide⟩
  obtain ⟨resp, _, last, current⟩ :=
    idle_stream_on_one_version run (by decide) found idle latest tListener (by decide) asked
  exact ⟨st, s, resp, run, found, last, current.trans version⟩

end SotwConvergence
