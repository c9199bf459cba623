import XdsControlPlane.DeltaServer

/-!
What a Delta client holds once its stream has caught up. The ledger of a type
is the client's cache seen through versions, from the first request, which
reports the cache, onwards; and over the snapshots that one control plane
builds a version stands for one body. So a wanted name that `send_delta` skips
is already what the snapshot has.
-/
namespace DeltaConvergence
open ExecutableRuns SharedCells KeyedMaps IncrementalSync EnvoyMessages DeltaSnapshots DeltaStream
open DeltaServer

/-- A snapshot that a control plane at this address can have built. -/
def Built (w : Control) (snap : Snapshot) : Prop := ∃ rv, snap = .build rv w.upstreamIp

def Subscribed (s : AdsStream) (t : String) : Prop := (s.vars.subs.lookup t).isSome

def Wants (s : AdsStream) (t n : String) : Prop := exactNames.stillWanted (s.vars.sub t) n

/-- The client has what `cur` has of every name it wants, save for the types the
    stream still owes it. -/
structure Agrees (s : AdsStream) (cur : Snapshot) : Prop where
  sending : ∀ snap, s.phase.sending = some snap → snap = cur
  current : ∀ t, Subscribed s t → t ∉ s.phase.owed → ∀ n, Wants s t n → s.cache t n = cur.get t n

structure StreamOk (w : Control) (s : AdsStream) : Prop where
  known : ∀ t, Subscribed s t ↔ ∃ q ∈ s.requests, q.typeUrl = t
  agrees : ∀ t, Subscribed s t → ∀ n,
    s.vars.ledger t n = (s.cache t n).map ResourceEntry.version
  unsent : ∀ t, ¬ Subscribed s t → ∀ n, s.vars.ledger t n = none
  held : ∀ t n e, s.cache t n = some e → ∃ snap, Built w snap ∧ snap.get t n = some e
  owed : ∀ t ∈ s.phase.owed, Subscribed s t
  sending : ∀ snap, s.phase.sending = some snap → Built w snap
  settled : s.phase ≠ .closed → Settled w.advertised s.receiver (Agrees s)

/-- Within one control plane a version stands for one body. -/
theorem built_one_body {w : Control} {a b : Snapshot} (ha : Built w a) (hb : Built w b)
    {t n : String} {e e' : ResourceEntry} (first : a.get t n = some e) (second : b.get t n = some e')
    (same : e.version = e'.version) : e = e' := by
  obtain ⟨r, rfl⟩ := ha
  obtain ⟨r', rfl⟩ := hb
  exact build_version_body first second same (Or.inl rfl)

/- One send -/

section Send
variable {w : Control} {s : AdsStream} {typeUrl : String} {snap : Snapshot} {next : Phase}

theorem send_subscribed (known : Subscribed s typeUrl) (t : String) :
    (s.send exactNames typeUrl snap next).vars.subs.lookup t = s.vars.subs.lookup t :=
  send_subs_known exactNames snap s.vars known t

theorem subscribed_after_send (known : Subscribed s typeUrl) (t : String) :
    Subscribed (s.send exactNames typeUrl snap next) t ↔ Subscribed s t := by
  rw [Subscribed, send_subscribed known, Subscribed]

theorem wants_after_send (t n : String) : Wants (s.send exactNames typeUrl snap next) t n ↔ Wants s t n := by
  rw [Wants, Wants, ← sub_after_send exactNames typeUrl snap s.vars t]
  rfl

theorem send_cache_other {t : String} (other : t ≠ typeUrl) :
    (s.send exactNames typeUrl snap next).cache t = s.cache t := by
  funext n
  exact (send_receive exactNames snap s.vars s.cache typeUrl t n).trans (if_neg other)

theorem send_cache_unwanted {n : String} (unwanted : ¬ Wants s typeUrl n) :
    (s.send exactNames typeUrl snap next).cache typeUrl n = s.cache typeUrl n := by
  refine (send_receive exactNames snap s.vars s.cache typeUrl typeUrl n).trans ?_
  rw [if_pos rfl]
  exact apply_unwanted (send_delta_spec exactNames typeUrl snap s.vars).bridges unwanted _

theorem send_cache_wanted (ok : StreamOk w s) (known : Subscribed s typeUrl) (built : Built w snap)
    {n : String} (wanted : Wants s typeUrl n) :
    (s.send exactNames typeUrl snap next).cache typeUrl n = snap.get typeUrl n := by
  refine (send_receive exactNames snap s.vars s.cache typeUrl typeUrl n).trans ?_
  rw [if_pos rfl]
  refine apply_wanted (send_delta_spec exactNames typeUrl snap s.vars).bridges wanted
    (ok.agrees typeUrl known n) fun e e' here there same => ?_
  obtain ⟨origin, builtOrigin, gotten⟩ := ok.held typeUrl n e here
  exact built_one_body builtOrigin built gotten there same

theorem send_agrees (ok : StreamOk w s) (known : Subscribed s typeUrl) {t : String}
    (subscribed : Subscribed s t) (n : String) :
    (s.send exactNames typeUrl snap next).vars.ledger t n =
      ((s.send exactNames typeUrl snap next).cache t n).map ResourceEntry.version := by
  have ledger := send_ledger exactNames snap s.vars typeUrl t n
  have cache := send_receive exactNames snap s.vars s.cache typeUrl t n
  refine ledger.trans (Eq.trans ?_ (congrArg (Option.map ResourceEntry.version) cache).symm)
  by_cases same : t = typeUrl
  · rw [if_pos same, if_pos same, ← apply_relabel, funext (ok.agrees typeUrl known)]
  · rw [if_neg same, if_neg same]
    exact ok.agrees t subscribed n

theorem send_ok (ok : StreamOk w s) (pays : Pays s.phase next typeUrl snap) :
    StreamOk w (s.send exactNames typeUrl snap next) := by
  have known := ok.owed typeUrl pays.owes
  have built := ok.sending snap pays.sending
  have same : ∀ t, Subscribed (s.send exactNames typeUrl snap next) t ↔ Subscribed s t :=
    subscribed_after_send known
  constructor
  case known => exact fun t => (same t).trans (ok.known t)
  case agrees => exact fun t h => send_agrees ok known ((same t).mp h)
  case unsent =>
    intro t h n
    have other : t ≠ typeUrl := fun eq => h ((same t).mpr (eq ▸ known))
    refine (send_ledger exactNames snap s.vars typeUrl t n).trans ((if_neg other).trans ?_)
    exact ok.unsent t (fun before => h ((same t).mpr before)) n
  case held =>
    intro t n e h
    by_cases isType : t = typeUrl
    · subst isType
      by_cases wanted : Wants s t n
      · rw [send_cache_wanted ok known built wanted] at h
        exact ⟨snap, built, h⟩
      · rw [send_cache_unwanted wanted] at h
        exact ok.held t n e h
    · rw [send_cache_other isType] at h
      exact ok.held t n e h
  case owed => exact fun t h => (same t).mpr (ok.owed t (pays.nextOwed t h))
  case sending => exact fun snap' h => pays.nextSending snap' h ▸ built
  case settled =>
    intro _
    refine settled_imp (ok.settled (pays_open pays)) fun _ agrees => ?_
    have isCurrent : snap = w.advertised.value := agrees.sending snap pays.sending
    constructor
    case sending => exact fun snap' h => (pays.nextSending snap' h).trans isCurrent
    case current =>
      intro t h notOwed n wanted
      by_cases isType : t = typeUrl
      · subst isType
        rw [send_cache_wanted ok known built ((wants_after_send t n).mp wanted), isCurrent]
      · have notBefore : t ∉ s.phase.owed := fun before => (pays.paid t before).elim isType notOwed
        rw [send_cache_other isType]
        exact agrees.current t ((same t).mp h) notBefore n ((wants_after_send t n).mp wanted)

end Send

/- Requests -/

def FirstOf (s : AdsStream) (r : DeltaDiscoveryRequest) : Prop :=
  ∀ q ∈ s.requests, q.typeUrl ≠ r.typeUrl

/-- The first request for a type is no rejection and reports what the client
    holds of the type; later requests report nothing. -/
def Reports (s : AdsStream) (r : DeltaDiscoveryRequest) : Prop :=
  (FirstOf s r → ¬ r.IsNack ∧ ∀ n, r.initialResourceVersions.lookup n =
    (s.cache r.typeUrl n).map ResourceEntry.version) ∧
  (¬ FirstOf s r → r.initialResourceVersions = ∅)

theorem first_iff {w : Control} {s : AdsStream} (ok : StreamOk w s) (r : DeltaDiscoveryRequest) :
    FirstOf s r ↔ ¬ Subscribed s r.typeUrl := by
  rw [ok.known, FirstOf]
  simp only [not_exists, not_and, ne_eq]

theorem nack_ok {w : Control} {s : AdsStream} (ok : StreamOk w s) {r : DeltaDiscoveryRequest}
    (reports : Reports s r) (isNack : r.IsNack) :
    StreamOk w { s with requests := s.requests ++ [r] } := by
  have notFirst : Subscribed s r.typeUrl := by
    by_contra unknown
    exact (reports.1 ((first_iff ok r).mpr unknown)).1 isNack
  refine { ok with
    known := fun t => (ok.known t).trans ?_
    settled := fun isOpen => settled_imp (ok.settled isOpen) fun _ agrees =>
      ⟨agrees.sending, agrees.current⟩ }
  simp only [List.mem_append, List.mem_singleton]
  constructor
  · rintro ⟨q, old, named⟩
    exact ⟨q, Or.inl old, named⟩
  · rintro ⟨q, old | rfl, named⟩
    · exact ⟨q, old, named⟩
    · exact (ok.known t).mp (named ▸ notFirst)

theorem record_agrees {w : Control} {s : AdsStream} (ok : StreamOk w s) {r : DeltaDiscoveryRequest}
    (reports : Reports s r) (n : String) :
    (s.vars.record r).ledger r.typeUrl n =
      (s.cache r.typeUrl n).map ResourceEntry.version := by
  rw [record_ledger, if_pos rfl]
  by_cases first : FirstOf s r
  · have unknown := (first_iff ok r).mp first
    rw [(reports.1 first).2 n, ok.unsent r.typeUrl unknown n, Option.or_none]
  · have known : Subscribed s r.typeUrl := by
      by_contra unknown
      exact first ((first_iff ok r).mpr unknown)
    rw [reports.2 first, AList.lookup_empty, Option.none_or]
    exact ok.agrees r.typeUrl known n

theorem record_ok {w : Control} {s : AdsStream} (advertised : Built w w.advertised.value)
    (ok : StreamOk w s) (phase : s.phase = .select) {r : DeltaDiscoveryRequest}
    (reports : Reports s r) :
    StreamOk w { s with
      vars := s.vars.record r
      requests := s.requests ++ [r]
      phase := .answering r.typeUrl w.advertised.value } := by
  have lookup := record_subs s.vars r
  have others : ∀ t, t ≠ r.typeUrl → ∀ n, (s.vars.record r).ledger t n = s.vars.ledger t n :=
    fun t other n => (record_ledger s.vars r t n).trans (if_neg other)
  have known : ∀ t, ((s.vars.record r).subs.lookup t).isSome ↔ t = r.typeUrl ∨ Subscribed s t := by
    intro t
    rw [lookup]
    by_cases same : t = r.typeUrl
    · simp [same]
    · rw [if_neg same, Subscribed]
      simp [same]
  constructor
  case known =>
    intro t
    rw [Subscribed, known, ok.known]
    simp only [List.mem_append, List.mem_singleton]
    constructor
    · rintro (rfl | ⟨q, old, named⟩)
      · exact ⟨r, Or.inr rfl, rfl⟩
      · exact ⟨q, Or.inl old, named⟩
    · rintro ⟨q, old | rfl, named⟩
      · exact Or.inr ⟨q, old, named⟩
      · exact Or.inl named.symm
  case agrees =>
    intro t h n
    by_cases same : t = r.typeUrl
    · subst same
      exact record_agrees ok reports n
    · rw [others t same]
      exact ok.agrees t (((known t).mp h).resolve_left same) n
  case unsent =>
    intro t h n
    have fresh := fun h' => h ((known t).mpr h')
    rw [others t fun same => fresh (Or.inl same)]
    exact ok.unsent t (fun before => fresh (Or.inr before)) n
  case held => exact ok.held
  case owed => exact fun t h => (known t).mpr (Or.inl (List.mem_singleton.mp h))
  case sending =>
    rintro snap ⟨⟩
    exact advertised
  case settled =>
    intro _
    refine settled_imp (ok.settled (by simp [phase])) fun _ agrees => ?_
    constructor
    case sending =>
      rintro snap ⟨⟩
      rfl
    case current =>
      intro t h notOwed n wanted
      have other : t ≠ r.typeUrl := fun same => notOwed (List.mem_singleton.mpr same)
      have notBefore : t ∉ s.phase.owed := by simp [phase, Phase.owed]
      refine agrees.current t (((known t).mp h).resolve_left other) notBefore n ?_
      rw [Wants, ← record_sub_other other]
      exact wanted

theorem stream_step_ok {w : Control} {s s' : AdsStream} {a : Act}
    (advertised : Built w w.advertised.value) (ok : StreamOk w s)
    (reports : ∀ r, a = .request r → Reports s r) (h : StreamStep w s a s') : StreamOk w s' := by
  obtain ⟨b, rfl, step⟩ := h
  cases step with
  | nack r phase isNack => exact nack_ok ok (reports r rfl) isNack
  | record r phase clean => exact record_ok advertised ok phase (reports r rfl)
  | respond typeUrl snap phase => exact send_ok ok (respond_pays phase)
  | wake order phase behind visits =>
    have visited : ∀ t, Subscribed s t ↔ t ∈ order := held_iff_visited visits
    refine { ok with owed := fun t h => (visited t).mpr h, sending := ?_, settled := fun _ => ?_ }
    · rintro snap ⟨⟩
      exact advertised
    · refine settled_now rfl ⟨?_, fun t h notOwed => absurd ((visited t).mp h) notOwed⟩
      rintro snap ⟨⟩
      rfl
  | deliver snap typeUrl todo phase => exact send_ok ok (deliver_pays phase)
  | finish snap phase =>
    refine { ok with
      owed := by simp [Phase.owed]
      sending := by simp [Phase.sending]
      settled := fun _ => ?_ }
    refine settled_imp (ok.settled (by simp [phase])) fun _ agrees => ?_
    constructor
    case sending => simp [Phase.sending]
    case current =>
      intro t h _
      exact agrees.current t h (by simp [phase, Phase.owed])
  | close =>
    exact { ok with
      owed := by simp [Phase.owed]
      sending := by simp [Phase.sending]
      settled := fun isOpen => absurd rfl isOpen }

/- Whole runs -/

/-- What is asked of the client of stream `i`: what it holds when it opens the
    stream was built by this control plane, and its requests report as they should. -/
def Disciplined (i : Nat) (st : State) : Step → Prop
  | .spawn (.openStream cache) => st.tasks.length = i → ∀ t n e, cache t n = some e →
      ∃ snap, Built st.shared snap ∧ snap.get t n = some e
  | .step j (.request r) => j = i → ∀ s, st.tasks[j]? = some (.stream s) → Reports s r
  | _ => True

structure ServerOk (i : Nat) (st : State) : Prop where
  advertised : Built st.shared st.shared.advertised.value
  bumps : ∀ (j : Nat) snap, st.tasks[j]? = some (.bump (.numbered snap)) → Built st.shared snap
  stream : ∀ s, st.tasks[i]? = some (.stream s) → StreamOk st.shared s

theorem opened_ok {w : Control} {cache : Cache}
    (held : ∀ t n e, cache t n = some e → ∃ snap, Built w snap ∧ snap.get t n = some e) :
    StreamOk w (.opened w.advertised cache) := by
  constructor
  case known =>
    intro t
    simp [Subscribed, AdsStream.opened, StreamVars.opened]
  case agrees => exact nofun
  case unsent => exact fun _ _ _ => rfl
  case held => exact held
  case owed => exact nofun
  case sending => exact nofun
  case settled => exact fun _ => settled_now rfl ⟨nofun, nofun⟩

theorem bump_sent_ok {w : Control} {s : AdsStream} (ok : StreamOk w s) (snap : Snapshot) :
    StreamOk { w with advertised := w.advertised.send snap } s :=
  { ok with settled := fun isOpen => settled_send (ok.settled isOpen) snap }

theorem server_ok_spawn {i : Nat} {st : State} (ok : ServerOk i st) (c : Call)
    (disciplined : Disciplined i st (.spawn c)) :
    ServerOk i ⟨(spawn st.shared c).1, st.tasks ++ [(spawn st.shared c).2]⟩ := by
  cases c with
  | bump =>
    constructor
    case advertised => exact ok.advertised
    case bumps =>
      intro j snap found
      rcases getElem?_append_one found with old | ⟨_, eq⟩
      · exact ok.bumps j snap old
      · cases eq
        exact ⟨_, rfl⟩
    case stream =>
      intro s found
      have before := ok.stream s (getElem?_append_other found nofun)
      exact { before with }
  | openStream cache =>
    constructor
    case advertised => exact ok.advertised
    case bumps => exact fun j snap found => ok.bumps j snap (getElem?_append_other found nofun)
    case stream =>
      intro s found
      rcases getElem?_append_one found with old | ⟨last, eq⟩
      · exact ok.stream s old
      · cases eq
        exact opened_ok (disciplined last.symm)

theorem server_ok_next {i : Nat} {st st' : State} {e : Step} (ok : ServerOk i st)
    (disciplined : Disciplined i st e) (h : server.next st e = some st') : ServerOk i st' := by
  rcases next_cases h with ⟨c, rfl, rfl⟩ | ⟨j, a, t, w', t', rfl, found, moved, rfl⟩
  · exact server_ok_spawn ok c disciplined
  · rcases task_step moved with ⟨snap, rfl, rfl, rfl, rfl⟩ | ⟨s, s', rfl, rfl, rfl, step⟩
    · constructor
      case advertised => exact ok.bumps j snap found
      case bumps => exact fun k other atK => ok.bumps k other (getElem?_set_other atK nofun)
      case stream =>
        intro s atI
        exact bump_sent_ok (ok.stream s (getElem?_set_other atI nofun)) snap
    · constructor
      case advertised => exact ok.advertised
      case bumps => exact fun k other atK => ok.bumps k other (getElem?_set_other atK nofun)
      case stream =>
        intro u atI
        rcases getElem?_set_cases atI with ⟨same, eq⟩ | ⟨_, old⟩
        · cases eq
          subst same
          refine stream_step_ok ok.advertised (ok.stream s found) (fun r eq => ?_) step
          subst eq
          exact disciplined rfl s found
        · exact ok.stream u old

theorem start_ok (i : Nat) (ip : String) : ServerOk i (start ip) := ⟨⟨1, rfl⟩, nofun, nofun⟩

/-- In every run with any bumps and any other streams: when stream `i` waits in
    its `select!` with the latest watch value seen, its client holds, of every
    subscribed type and wanted name, what the advertised snapshot holds, with
    version and body, and nothing where the snapshot has nothing. -/
theorem client_holds_advertised {ip : String} {i : Nat} {es : List Step} {st : State}
    {s : AdsStream} (disciplined : Along server.next (Disciplined i) (start ip) es)
    (run : exec server.next (start ip) es = some st) (found : st.tasks[i]? = some (.stream s))
    (idle : s.phase = .select) (latest : s.receiver.UpToDate st.shared.advertised) :
    ∀ t, Subscribed s t → ∀ n, Wants s t n →
      s.cache t n = st.shared.advertised.value.get t n := by
  have ok := (along_invariant (fun _ _ _ ok allowed h => server_ok_next ok allowed h) run
    disciplined (start_ok i ip)).stream s found
  intro t subscribed n wanted
  have settled := (ok.settled (by rw [idle]; nofun)).settled latest
  exact settled.current t subscribed (by simp [idle, Phase.owed]) n wanted

def heldRoute : DeltaDiscoveryRequest :=
  ⟨tRoute, [], [], (∅ : HashMap String String).insert "primary_route" "v1", "", none⟩

/-- A client that holds the route at v1 reconnects; two bumps reach it as one. -/
def coalescedBumps : List Step :=
  [.spawn (.openStream fun t n => (Snapshot.build 1 "10.0.0.1").get t n),
    .step 0 (.request heldRoute), .step 0 .respond,
    .spawn .bump, .spawn .bump, .step 1 .proceed, .step 2 .proceed,
    .step 0 (.wake [tRoute]), .step 0 .deliver, .step 0 .deliver]

theorem held_route_reports (w : Control) :
    Reports (.opened w.advertised fun t n => (Snapshot.build 1 "10.0.0.1").get t n) heldRoute := by
  refine ⟨fun _ => ⟨nofun, fun n => ?_⟩, fun notFirst => absurd nofun notFirst⟩
  change ((∅ : HashMap String String).insert "primary_route" "v1").lookup n =
    ((Snapshot.build 1 "10.0.0.1").get tRoute n).map ResourceEntry.version
  rw [build_route, lookup_insert, AList.lookup_empty]
  change (if n = routeName then _ else _) = _
  split
  · exact congrArg some (by decide : "v1" = versionLabel 1)
  · rfl

theorem coalesced_bumps_disciplined :
    Along server.next (Disciplined 0) (start "10.0.0.1") coalescedBumps := by
  intro st opened
  obtain rfl := Option.some.inj opened
  refine ⟨fun _ t n e held => ⟨_, ⟨1, rfl⟩, held⟩, fun _ _ => ⟨fun _ s found => ?_, ?_⟩⟩
  · obtain rfl : AdsStream.opened _ _ = s := ControlTask.stream.inj (Option.some.inj found)
    exact held_route_reports _
  · exact fun _ _ => ⟨trivial, fun _ _ => ⟨trivial, fun _ _ => ⟨trivial, fun _ _ => ⟨trivial,
      fun _ _ => ⟨trivial, fun _ _ => ⟨trivial, fun _ _ => ⟨trivial, fun _ _ => ⟨trivial,
      trivial⟩⟩⟩⟩⟩⟩⟩⟩

theorem client_holds_bumped_route :
    ∃ st s, exec server.next (start "10.0.0.1") coalescedBumps = some st ∧
      st.tasks[0]? = some (.stream s) ∧ st.shared.routeVersion = 3 ∧
      s.cache tRoute routeName = st.shared.advertised.value.get tRoute routeName := by
  obtain ⟨st, s, run, found, idle, latest, subscribed, wanted, bumped⟩ :
      ∃ st s, exec server.next (start "10.0.0.1") coalescedBumps = some st ∧
        st.tasks[0]? = some (.stream s) ∧ s.phase = .select ∧
        s.receiver.UpToDate st.shared.advertised ∧ (s.vars.subs.lookup tRoute).isSome ∧
        exactNames.stillWanted (s.vars.sub tRoute) routeName ∧ st.shared.routeVersion = 3 :=
    ⟨_, _, rfl, rfl, rfl, rfl, by decide, by decide, by decide⟩
  exact ⟨st, s, run, found, bumped, client_holds_advertised coalesced_bumps_disciplined run found
    idle latest tRoute subscribed routeName wanted⟩

end DeltaConvergence
