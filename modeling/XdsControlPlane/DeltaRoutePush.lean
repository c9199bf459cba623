import XdsControlPlane.DeltaConvergence
import XdsControlPlane.PublicationOrder

/-!
What a bump costs a Delta stream of Chapter 4. Whatever a client has asked for and
claimed to hold, an idle stream has brought every type it is subscribed to in
step with the advertised snapshot, by its own ledger. A snapshot built later
differs from that one in the route alone, and a bump's number is always a new
one, so the watch arm finds the route changed and nothing else.
-/
namespace DeltaRoutePush
open ExecutableRuns SharedCells KeyedMaps EnvoyMessages NumberedCalls NumberedPublishing
open DeltaSnapshots DeltaStream DeltaDifference DeltaServer DeltaConvergence PublicationOrder

/- A type in step with a snapshot -/

/-- The stream knows the type, and by its ledger has nothing of it to send. -/
structure Synced (v : StreamVars) (snap : Snapshot) (t : String) : Prop where
  subscribed : (v.subs.lookup t).isSome
  known : (v.sent.lookup t).isSome
  current : ∀ n, exactNames.stillWanted (v.sub t) n →
    v.ledger t n = (snap.get t n).map ResourceEntry.version

theorem send_synced {v : StreamVars} {snap : Snapshot} {t : String} (synced : Synced v snap t) :
    sendDelta exactNames t snap v = (v, none) :=
  send_in_sync exactNames synced.subscribed synced.known synced.current

theorem synced_after_send (v : StreamVars) (snap : Snapshot) (t : String) :
    Synced (sendDelta exactNames t snap v).1 snap t := by
  constructor
  case subscribed => exact subs_type_known exactNames t snap v
  case known => exact sent_type_known exactNames t snap v
  case current =>
    intro n wanted
    rw [sub_after_send] at wanted
    exact (sends_exact_difference exactNames t snap v).picked n wanted

theorem synced_beside {v : StreamVars} {snap cur : Snapshot} {t u : String} (other : t ≠ u)
    (synced : Synced v cur t) : Synced (sendDelta exactNames u snap v).1 cur t := by
  constructor
  case subscribed =>
    rw [(send_delta_spec exactNames u snap v).subs, if_neg other]
    exact synced.subscribed
  case known =>
    rw [sent_other_type exactNames u snap v other]
    exact synced.known
  case current =>
    intro n wanted
    rw [sub_after_send] at wanted
    rw [send_ledger, if_neg other]
    exact synced.current n wanted

theorem synced_same_get {v : StreamVars} {snap cur : Snapshot} {t : String}
    (same : ∀ n, exactNames.stillWanted (v.sub t) n → snap.get t n = cur.get t n)
    (synced : Synced v cur t) : Synced v snap t := by
  constructor
  case subscribed => exact synced.subscribed
  case known => exact synced.known
  case current =>
    intro n wanted
    rw [same n wanted]
    exact synced.current n wanted

/- The watch arm over all types -/

theorem visits_synced {snap : Snapshot} {l : Loop} {order : List String}
    (synced : ∀ t ∈ order, Synced l.vars snap t) :
    order.foldl (Loop.visit exactNames snap) l = l := by
  induction order with
  | nil => rfl
  | cons t order ih =>
    have first : l.visit exactNames snap t = l := by
      rw [Loop.visit, send_synced (synced t List.mem_cons_self)]
      rfl
    rw [List.foldl_cons, first]
    exact ih fun u later => synced u (List.mem_cons_of_mem t later)

/-- With one type out of step, the whole arm sends what that type's turn sends. -/
theorem visits_one {snap : Snapshot} {l : Loop} {order : List String} {t : String}
    (distinct : order.Nodup) (listed : t ∈ order)
    (synced : ∀ u ∈ order, u ≠ t → Synced l.vars snap u) :
    order.foldl (Loop.visit exactNames snap) l = l.visit exactNames snap t := by
  obtain ⟨before, after, rfl⟩ := List.append_of_mem listed
  have apart := List.nodup_append.mp distinct
  have head : ∀ u ∈ before, Synced l.vars snap u := by
    intro u early
    exact synced u (List.mem_append_left _ early) (apart.2.2 u early t List.mem_cons_self)
  have tail : ∀ u ∈ after, Synced (l.visit exactNames snap t).vars snap u := by
    intro u late
    have other : u ≠ t := by
      rintro rfl
      exact (List.nodup_cons.mp apart.2.1).1 late
    have listed := List.mem_append_right before (List.mem_cons_of_mem t late)
    exact synced_beside other (synced u listed other)
  rw [List.foldl_append, List.foldl_cons, visits_synced head, visits_synced tail]

/- A route change -/

theorem build_same_get {rv rv' : UInt64} {ip t n : String} (other : ¬ (t = tRoute ∧ n = routeName)) :
    (Snapshot.build rv ip).get t n = (Snapshot.build rv' ip).get t n := by
  rw [build_get, build_get, if_neg other, if_neg other]

def routeResource (rv : UInt64) : Resource :=
  ⟨routeName, versionLabel rv, any tRoute (.routeConfiguration (routeConfig rv))⟩

section Change
variable {v : StreamVars} {rv rv' : UInt64} {ip : String}

theorem synced_other_type {t : String} (other : t ≠ tRoute)
    (synced : Synced v (.build rv ip) t) : Synced v (.build rv' ip) t := by
  apply synced_same_get ?_ synced
  intro n _
  exact build_same_get fun route => other route.1

theorem synced_unwanted (unwanted : ¬ exactNames.stillWanted (v.sub tRoute) routeName)
    (synced : Synced v (.build rv ip) tRoute) : Synced v (.build rv' ip) tRoute := by
  apply synced_same_get ?_ synced
  intro n wanted
  apply build_same_get
  rintro ⟨_, rfl⟩
  exact unwanted wanted

theorem send_route (changed : rv ≠ rv') (wanted : exactNames.stillWanted (v.sub tRoute) routeName)
    (synced : Synced v (.build rv ip) tRoute) :
    ∃ resp, (sendDelta exactNames tRoute (.build rv' ip) v).2 = some resp ∧
      resp.typeUrl = tRoute ∧ resp.resources = [routeResource rv'] ∧
      resp.removedResources = [] := by
  have difference := sends_exact_difference exactNames tRoute (.build rv' ip) v
  have ledger := synced.current routeName wanted
  rw [build_route, if_pos rfl, Option.map_some] at ledger
  have route : Added (exactNames.stillWanted (v.sub tRoute)) tRoute (.build rv' ip) v
      (routeResource rv') := by
    refine ⟨wanted, ?_, ?_⟩
    · rw [routeResource, build_route, if_pos rfl]
    · rw [routeResource, ledger]
      intro same
      exact changed (version_label_injective (Option.some.inj same))
  have only : ∀ x, Added (exactNames.stillWanted (v.sub tRoute)) tRoute (.build rv' ip) v x →
      x = routeResource rv' := by
    rintro ⟨name, version, body⟩ ⟨_, held, _⟩
    simp only [build_route] at held
    split at held
    · rename_i named
      cases held
      rw [named, routeResource]
    · contradiction
  have kept : ∀ n, ¬ Dropped (exactNames.stillWanted (v.sub tRoute)) tRoute (.build rv' ip) v n := by
    rintro n ⟨picked, gone, sent⟩
    have before := synced.current n picked
    rw [build_route] at gone before
    split at gone
    · contradiction
    · rename_i other
      rw [if_neg other, Option.map_none] at before
      exact sent before
  cases answer : (sendDelta exactNames tRoute (.build rv' ip) v).2 with
  | none => exact absurd route ((difference.silent.mp answer).1 _)
  | some resp =>
    rw [answer] at difference
    refine ⟨resp, rfl, (difference.addressed resp rfl).1, ?_, ?_⟩
    · apply List.perm_singleton.mp
      have distinct : resp.resources.Nodup := .of_map _ difference.addedOnce
      apply (List.perm_ext_iff_of_nodup distinct (List.nodup_singleton _)).mpr
      intro x
      rw [List.mem_singleton]
      constructor
      · intro listed
        exact only x ((difference.added x).mp listed)
      · rintro rfl
        exact (difference.added _).mpr route
    · rw [List.eq_nil_iff_forall_not_mem]
      intro n removed
      exact kept n ((difference.dropped n).mp removed)

end Change

/- Every idle stream is in step -/

/-- The stream is in step with `cur` in all it is subscribed to, save for the types
    it is about to send. -/
structure InStep (s : AdsStream) (cur : Snapshot) : Prop where
  sending : ∀ snap, s.phase.sending = some snap → snap = cur
  synced : ∀ t, Subscribed s t → t ∉ s.phase.owed → Synced s.vars cur t

structure StreamOk (w : Control) (s : AdsStream) : Prop where
  known : ∀ t, Subscribed s t → (s.vars.sent.lookup t).isSome
  owed : ∀ t ∈ s.phase.owed, Subscribed s t
  settled : s.phase ≠ .closed → Settled w.advertised s.receiver (InStep s)

theorem opened_in_step (w : Control) (cache : Cache) : StreamOk w (.opened w.advertised cache) := by
  have nothing : ∀ t, ¬ Subscribed (.opened w.advertised cache) t := by
    intro t
    simp [Subscribed, AdsStream.opened, StreamVars.opened]
  constructor
  case known => exact fun t h => absurd h (nothing t)
  case owed => simp [AdsStream.opened, Phase.owed]
  case settled =>
    intro _
    apply settled_now rfl
    constructor
    case sending => simp [AdsStream.opened, Phase.sending]
    case synced => exact fun t h => absurd h (nothing t)

section Send
variable {w : Control} {s : AdsStream} {typeUrl : String} {snap : Snapshot} {next : Phase}

theorem send_in_step (ok : StreamOk w s) (pays : Pays s.phase next typeUrl snap) :
    StreamOk w (s.send exactNames typeUrl snap next) := by
  have same : ∀ t, Subscribed (s.send exactNames typeUrl snap next) t ↔ Subscribed s t :=
    subscribed_after_send (ok.owed typeUrl pays.owes)
  constructor
  case known =>
    intro t h
    by_cases isType : t = typeUrl
    · exact isType ▸ sent_type_known exactNames typeUrl snap s.vars
    · refine (congrArg Option.isSome (sent_other_type exactNames typeUrl snap s.vars isType)).trans ?_
      exact ok.known t ((same t).mp h)
  case owed => exact fun t h => (same t).mpr (ok.owed t (pays.nextOwed t h))
  case settled =>
    intro _
    refine settled_imp (ok.settled (pays_open pays)) fun _ inStep => ?_
    have isCurrent : snap = w.advertised.value := inStep.sending snap pays.sending
    constructor
    case sending => exact fun snap' h => (pays.nextSending snap' h).trans isCurrent
    case synced =>
      intro t h notOwed
      by_cases isType : t = typeUrl
      · rw [isType, ← isCurrent]
        exact synced_after_send s.vars snap typeUrl
      · have notBefore : t ∉ s.phase.owed := fun before => (pays.paid t before).elim isType notOwed
        exact synced_beside isType (inStep.synced t ((same t).mp h) notBefore)

end Send

theorem record_in_step {w : Control} {s : AdsStream} (ok : StreamOk w s) (phase : s.phase = .select)
    (r : DeltaDiscoveryRequest) :
    StreamOk w { s with
      vars := s.vars.record r
      requests := s.requests ++ [r]
      phase := .answering r.typeUrl w.advertised.value } := by
  have lookup := record_subs s.vars r
  have sent : ∀ t, t ≠ r.typeUrl → (s.vars.record r).sent.lookup t = s.vars.sent.lookup t :=
    fun t other => (lookup_insert _ _ _ _).trans (if_neg other)
  have before : ∀ t, t ≠ r.typeUrl → ((s.vars.record r).subs.lookup t).isSome → Subscribed s t := by
    intro t other h
    rwa [lookup, if_neg other] at h
  constructor
  case known =>
    intro t h
    by_cases same : t = r.typeUrl
    · simp [StreamVars.record, lookup_insert, same]
    · refine (congrArg Option.isSome (sent t same)).trans ?_
      exact ok.known t (before t same h)
  case owed =>
    intro t h
    rw [List.mem_singleton.mp h, Subscribed, lookup, if_pos rfl, Option.isSome_some]
  case settled =>
    intro _
    refine settled_imp (ok.settled (by simp [phase])) fun _ inStep => ?_
    constructor
    case sending =>
      rintro snap ⟨⟩
      rfl
    case synced =>
      intro t h notOwed
      have other : t ≠ r.typeUrl := fun same => notOwed (List.mem_singleton.mpr same)
      have synced := inStep.synced t (before t other h) (by simp [phase, Phase.owed])
      constructor
      case subscribed => exact h
      case known => rw [sent t other]; exact synced.known
      case current =>
        intro n wanted
        rw [record_sub_other other] at wanted
        rw [record_ledger, if_neg other]
        exact synced.current n wanted

theorem stream_step_in_step {w : Control} {s s' : AdsStream} {a : Act} (ok : StreamOk w s)
    (h : StreamStep w s a s') : StreamOk w s' := by
  obtain ⟨b, rfl, step⟩ := h
  cases step with
  | nack r phase isNack =>
    refine { ok with settled := fun isOpen => ?_ }
    exact settled_imp (ok.settled isOpen) fun _ inStep => ⟨inStep.sending, inStep.synced⟩
  | record r phase clean => exact record_in_step ok phase r
  | respond typeUrl snap phase => exact send_in_step ok (respond_pays phase)
  | wake order phase behind visits =>
    have visited : ∀ t, Subscribed s t ↔ t ∈ order := held_iff_visited visits
    refine { ok with owed := fun t h => (visited t).mpr h, settled := fun _ => ?_ }
    refine settled_now rfl ⟨?_, fun t h notOwed => absurd ((visited t).mp h) notOwed⟩
    rintro snap ⟨⟩
    rfl
  | deliver snap typeUrl todo phase => exact send_in_step ok (deliver_pays phase)
  | finish snap phase =>
    refine { ok with owed := by simp [Phase.owed], settled := fun _ => ?_ }
    refine settled_imp (ok.settled (by simp [phase])) fun _ inStep => ?_
    constructor
    case sending => simp [Phase.sending]
    case synced =>
      intro t h _
      exact inStep.synced t h (by simp [phase, Phase.owed])
  | close =>
    exact { ok with owed := by simp [Phase.owed], settled := fun isOpen => absurd rfl isOpen }

def WorldOk (ip : String) (w : Control) : Prop :=
  w.upstreamIp = ip ∧ ∃ rv, w.advertised.value = .build rv ip

def TaskOk (ip : String) (w : Control) : ControlTask → Prop
  | .bump (.numbered snap) => ∃ rv, snap = .build rv ip
  | .bump .done => True
  | .stream s => StreamOk w s

abbrev ServerOk (ip : String) : State → Prop := Holds (WorldOk ip) fun _ w t => TaskOk ip w t

theorem task_ok_call {ip : String} {w : Control} {t : ControlTask} (ok : TaskOk ip w t) (c : Call) :
    TaskOk ip (spawn w c).1 t := by
  cases c with
  | openStream cache => exact ok
  | bump =>
    match t with
    | .bump (.numbered snap) => exact ok
    | .bump .done => trivial
    | .stream s => exact { StreamOk.mk ok.known ok.owed ok.settled with }

theorem task_ok_send {ip : String} {w : Control} {t : ControlTask} (ok : TaskOk ip w t)
    (snap : Snapshot) : TaskOk ip { w with advertised := w.advertised.send snap } t := by
  match t with
  | .bump (.numbered snap) => exact ok
  | .bump .done => trivial
  | .stream s =>
    exact ⟨ok.known, ok.owed, fun isOpen => settled_send (ok.settled isOpen) snap⟩

theorem server_ok_run {ip : String} {es : List Step} {st : State}
    (run : exec server.next (start ip) es = some st) : ServerOk ip st := by
  refine holds_exec ?_ ?_ ?_ ?_ (fun _ _ => trivial : ∀ a, _ → True) run ⟨⟨rfl, 1, rfl⟩, nofun⟩
  · rintro i w c _ ⟨address, built⟩
    cases c with
    | bump =>
      refine ⟨⟨address, built⟩, fetchAddOne w.routeVersion, ?_⟩
      rw [← address]
    | openStream cache => exact ⟨⟨address, built⟩, opened_in_step w cache⟩
  · intro i w c t _ _ ok
    exact task_ok_call ok c
  · intro i w t a w' t' world ok moved
    rcases task_step moved with ⟨snap, rfl, rfl, rfl, rfl⟩ | ⟨s, s', rfl, rfl, rfl, step⟩
    · exact ⟨⟨world.1, ok⟩, trivial⟩
    · exact ⟨world, stream_step_in_step ok step⟩
  · intro i j w t a w' t' u _ _ ok moved
    rcases task_step moved with ⟨snap, rfl, rfl, rfl, rfl⟩ | ⟨s, s', rfl, rfl, rfl, step⟩
    · exact task_ok_send ok snap
    · exact ok

/- One watch arm -/

def loopOf (s : AdsStream) : Loop := ⟨s.vars, s.outbox⟩

/-- The stream is part of the way through its watch arm, or has just been through it. -/
inductive Delivering (snap : Snapshot) (order : List String) (l : Loop) (s : AdsStream) : Prop where
  | between (done todo : List String) (phase : s.phase = .watching snap todo)
      (split : order = done ++ todo)
      (sent : loopOf s = done.foldl (Loop.visit exactNames snap) l)
  | ended (phase : s.phase = .select)
      (sent : loopOf s = order.foldl (Loop.visit exactNames snap) l)

theorem deliver_delivering {snap : Snapshot} {order : List String} {l : Loop} {w : Control}
    {s s' : AdsStream} (delivering : Delivering snap order l s) (step : StreamStep w s .deliver s') :
    Delivering snap order l s' := by
  obtain ⟨b, delivers, step⟩ := step
  obtain rfl : b = .deliver := by cases b <;> cases delivers; rfl
  cases delivering with
  | ended phase sent =>
    cases step with
    | deliver snap' typeUrl todo phase' => rw [phase] at phase'; contradiction
    | finish snap' phase' => rw [phase] at phase'; contradiction
  | between done todo phase split sent =>
    cases step with
    | deliver snap' typeUrl rest phase' =>
      cases phase.symm.trans phase'
      refine .between (done ++ [typeUrl]) rest rfl (by simp [split]) ?_
      rw [List.foldl_append, ← sent]
      rfl
    | finish snap' phase' =>
      cases phase.symm.trans phase'
      rw [List.append_nil] at split
      refine .ended rfl ?_
      rw [split]
      exact sent

theorem delivering_run {snap : Snapshot} {order : List String} {l : Loop} {i : Nat}
    {gs : List Step} {st st' : State} (only : ∀ a, .step i a ∈ gs → a = .deliver)
    (run : exec server.next st gs = some st')
    (before : ∃ s, st.tasks[i]? = some (.stream s) ∧ Delivering snap order l s) :
    ∃ s', st'.tasks[i]? = some (.stream s') ∧ Delivering snap order l s' := by
  have allowed : Along server.next (fun _ e => ∀ a, e = .step i a → a = .deliver) st gs :=
    along_of_mem fun e member a same => only a (same ▸ member)
  apply along_invariant
    (I := fun st : State => ∃ s, st.tasks[i]? = some (.stream s) ∧ Delivering snap order l s)
    ?_ run allowed before
  rintro st e st' ⟨s, found, delivering⟩ mine h
  have inside := (List.getElem?_eq_some_iff.mp found).1
  rcases next_cases h with ⟨c, rfl, rfl⟩ | ⟨j, a, t, w', t', rfl, held, moved, rfl⟩
  · exact ⟨s, by rwa [List.getElem?_append_left inside], delivering⟩
  · by_cases same : j = i
    · subst same
      cases held.symm.trans found
      obtain rfl := mine a rfl
      have step : stepTask st.shared (.stream s) .deliver = some (w', t') := moved
      rcases task_step step with ⟨_, eq, _⟩ | ⟨s₁, s', eq, rfl, rfl, step⟩
      · cases eq
      · cases eq
        exact ⟨s', List.getElem?_set_self inside, deliver_delivering delivering step⟩
    · exact ⟨s, by rwa [List.getElem?_set_ne same], delivering⟩

theorem delivers_through (w : Control) {snap : Snapshot} {todo : List String} {s : AdsStream}
    (phase : s.phase = .watching snap todo) :
    ∃ s', exec (fun r a => server.step r.1 r.2 a) (w, .stream s)
        (List.replicate (todo.length + 1) .deliver) = some (w, .stream s') ∧ s'.phase = .select := by
  induction todo generalizing s with
  | nil =>
    refine ⟨{ s with phase := .select }, ?_, rfl⟩
    simp [exec, server, stepTask, stepStream, stepLoop, phase]
  | cons t todo ih =>
    obtain ⟨s', rest, back⟩ := ih (s := s.send exactNames t snap (.watching snap todo)) rfl
    refine ⟨s', ?_, back⟩
    rw [List.length_cons, List.replicate_succ]
    apply exec_cons_some.mpr
    refine ⟨(w, .stream (s.send exactNames t snap (.watching snap todo))), ?_, rest⟩
    simp [server, stepTask, stepStream, stepLoop, phase]

theorem wanted_subscribed {s : AdsStream} {t n : String} (wanted : Wants s t n) :
    Subscribed s t := by
  by_contra unknown
  rw [Subscribed, Option.not_isSome_iff_eq_none] at unknown
  rw [Wants, StreamVars.sub, entryOr, unknown] at wanted
  change (false || decide (n ∈ HashSet.empty)) = true at wanted
  simp at wanted

theorem arm_route_only {s : AdsStream} {rv rv' : UInt64} {ip : String} {order : List String}
    (synced : ∀ t, Subscribed s t → Synced s.vars (.build rv ip) t) (changed : rv ≠ rv')
    (visits : order.Perm s.vars.subs.keys) :
    (Wants s tRoute routeName → ∃ resp,
      (order.foldl (Loop.visit exactNames (.build rv' ip)) (loopOf s)).outbox = resp :: s.outbox ∧
        resp.typeUrl = tRoute ∧ resp.resources = [routeResource rv'] ∧
        resp.removedResources = []) ∧
    (¬ Wants s tRoute routeName →
      (order.foldl (Loop.visit exactNames (.build rv' ip)) (loopOf s)).outbox = s.outbox) := by
  have visited : ∀ t, Subscribed s t ↔ t ∈ order := held_iff_visited visits
  have others : ∀ t ∈ order, t ≠ tRoute → Synced s.vars (.build rv' ip) t := by
    intro t listed other
    exact synced_other_type other (synced t ((visited t).mpr listed))
  constructor
  · intro wanted
    have subscribed := wanted_subscribed wanted
    have distinct : order.Nodup := visits.nodup_iff.mpr s.vars.subs.keys_nodup
    obtain ⟨resp, sent, route⟩ := send_route changed wanted (synced tRoute subscribed)
    refine ⟨resp, ?_, route⟩
    rw [visits_one distinct ((visited tRoute).mp subscribed) others]
    simp only [Loop.visit, Loop.put, loopOf, sent, Option.toList_some, List.singleton_append]
  · intro unwanted
    rw [visits_synced]
    · rfl
    · intro t listed
      by_cases isRoute : t = tRoute
      · subst isRoute
        exact synced_unwanted unwanted (synced tRoute ((visited tRoute).mpr listed))
      · exact others t listed isRoute

/-- What a stream has sent between two of its states if all that changed is the
    route: the route at its advertised version, to a stream that wants it. -/
structure RouteOnly (w : Control) (s s' : AdsStream) : Prop where
  wanted : Wants s tRoute routeName → ∃ rv resp,
    w.advertised.value = .build rv w.upstreamIp ∧ s'.outbox = resp :: s.outbox ∧
      resp.typeUrl = tRoute ∧ resp.resources = [routeResource rv] ∧ resp.removedResources = []
  unwanted : ¬ Wants s tRoute routeName → s'.outbox = s.outbox

theorem route_fresh {ip : String} {es fs : List Step} {st mid : State}
    (few : (es ++ fs).countP bumps.begun < 2 ^ 64)
    (run : exec server.next (start ip) es = some st) (between : exec server.next st fs = some mid)
    (bumped : mid.shared.advertised.stamp ≠ st.shared.advertised.stamp) :
    routeVersionOf mid.shared.advertised.value ≠ routeVersionOf st.shared.advertised.value := by
  have all : ∀ (gs : List Step) i x, .step i x ∈ gs → True := fun _ _ _ _ => trivial
  rw [List.countP_append] at few
  have begun : total (bumps.calls (start ip)) = 0 := rfl
  have count := bumps.total_run (all es) run
  have first : bumps.Published (start ip) 1 :=
    published_start rfl (route_version_of_build 1 ip)
  obtain ⟨k, published⟩ :=
    published_run first (bumps.along_within (all es) (by omega)) run
  exact current_fresh version_label_injective published (bumps.along_within (all fs) (by omega))
    between bumped

/-- A route change is a push of one resource. Stream `i` may have any history; it is
    idle and has seen the latest value when bumps, and whatever the other streams
    do, change it. However often they do, its watch arm then runs to its end, and
    sends the route alone, if the stream wants it, and otherwise nothing. -/
theorem bump_pushes_route_only {ip : String} {i : Nat} {es fs : List Step} {st mid : State}
    {s : AdsStream} {order : List String}
    (few : (es ++ fs).countP bumps.begun < 2 ^ 64)
    (run : exec server.next (start ip) es = some st) (found : st.tasks[i]? = some (.stream s))
    (idle : s.phase = .select) (latest : s.receiver.UpToDate st.shared.advertised)
    (between : exec server.next st fs = some mid) (apart : ∀ a, .step i a ∉ fs)
    (bumped : mid.shared.advertised.stamp ≠ st.shared.advertised.stamp)
    (visits : order.Perm s.vars.subs.keys) :
    (∃ st' s', exec server.next mid (.step i (.wake order) ::
        List.replicate (order.length + 1) (.step i .deliver)) = some st' ∧
      st'.tasks[i]? = some (.stream s') ∧ s'.phase = .select) ∧
    ∀ gs st' s', (∀ a, .step i a ∈ gs → a = .deliver) →
      exec server.next mid (.step i (.wake order) :: gs) = some st' →
      st'.tasks[i]? = some (.stream s') → s'.phase = .select → RouteOnly mid.shared s s' := by
  have there := task_untouched apart between found
  have inside := (List.getElem?_eq_some_iff.mp there).1
  have behind : s.receiver.seen ≠ mid.shared.advertised.stamp := by
    rw [latest]
    exact bumped.symm
  -- the arm takes the latest value and lists the types it owes
  have woken : stepTask mid.shared (.stream s) (.wake order) = some (mid.shared, .stream { s with
      receiver := ⟨mid.shared.advertised.stamp⟩
      phase := .watching mid.shared.advertised.value order }) := by
    simp [stepTask, stepStream, stepLoop, idle, behind, visits, Watch.borrowAndUpdate]
  have first := next_step (p := server) there woken
  constructor
  · obtain ⟨s', rest, back⟩ := delivers_through mid.shared (s := { s with
      receiver := ⟨mid.shared.advertised.stamp⟩
      phase := .watching mid.shared.advertised.value order }) rfl
    have alone := exec_alone (p := server) (s := ⟨mid.shared, mid.tasks.set i (.stream { s with
      receiver := ⟨mid.shared.advertised.stamp⟩
      phase := .watching mid.shared.advertised.value order })⟩) (List.getElem?_set_self inside) rest
    rw [List.map_replicate] at alone
    refine ⟨_, s', exec_cons_some.mpr ⟨_, first, alone⟩, ?_, back⟩
    simp [inside]
  · intro gs st' s' only arm found' done
    obtain ⟨m, wake, rest⟩ := exec_cons_some.mp arm
    cases Option.some.inj (first.symm.trans wake)
    obtain ⟨s₁, at_, delivering⟩ := delivering_run only rest
      ⟨_, List.getElem?_set_self inside, .between [] order rfl rfl rfl⟩
    cases found'.symm.trans at_
    have ok := server_ok_run run
    have okMid := server_ok_run (exec_append_some.mpr ⟨st, run, between⟩)
    obtain ⟨_, rv, advertised⟩ := ok.shared
    obtain ⟨address, rv', advertised'⟩ := okMid.shared
    have fresh := route_fresh few run between bumped
    have changed : rv ≠ rv' := by
      rintro rfl
      exact fresh (by rw [advertised, advertised'])
    have streamOk : StreamOk st.shared s := ok.task i _ found
    have inStep := (streamOk.settled (by simp [idle])).settled latest
    have synced : ∀ t, Subscribed s t → Synced s.vars (.build rv ip) t := by
      intro t subscribed
      rw [← advertised]
      exact inStep.synced t subscribed (by simp [idle, Phase.owed])
    have outcome := arm_route_only synced changed visits
    cases delivering with
    | between done' todo phase => rw [done] at phase; contradiction
    | ended phase sent =>
      have outbox := congrArg Loop.outbox sent
      rw [advertised'] at outbox
      constructor
      case wanted =>
        intro wanted
        obtain ⟨resp, pushed, route⟩ := outcome.1 wanted
        exact ⟨rv', resp, by rw [advertised', address], outbox.trans pushed, route⟩
      case unwanted => exact fun unwanted => outbox.trans (outcome.2 unwanted)

/-- A client subscribes to the route by name, claiming to hold it at `v7`, and to
    all clusters. -/
def mixedSubscriptions : List Step :=
  [.spawn (.openStream fun _ _ => none),
    .step 0 (.request ⟨tRoute, [routeName], [],
      (∅ : HashMap String String).insert routeName "v7", "", none⟩), .step 0 .respond,
    .step 0 (.request ⟨tCluster, ["*"], [], ∅, "", none⟩), .step 0 .respond]

def twoBumps : List Step := [.spawn .bump, .spawn .bump, .step 2 .proceed, .step 1 .proceed]

theorem two_bumps_push_route_once :
    ∃ st mid st' s s', exec server.next (start "10.0.0.1") mixedSubscriptions = some st ∧
      exec server.next st twoBumps = some mid ∧
      exec server.next mid (.step 0 (.wake [tCluster, tRoute]) ::
        List.replicate 3 (.step 0 .deliver)) = some st' ∧
      st.tasks[0]? = some (.stream s) ∧ st'.tasks[0]? = some (.stream s') ∧
      Wants s tRoute routeName ∧ RouteOnly mid.shared s s' := by
  obtain ⟨st, mid, s, run, between, found, idle, latest, bumped, visits, wanted⟩ :
      ∃ st mid s, exec server.next (start "10.0.0.1") mixedSubscriptions = some st ∧
        exec server.next st twoBumps = some mid ∧ st.tasks[0]? = some (.stream s) ∧
        s.phase = .select ∧ s.receiver.UpToDate st.shared.advertised ∧
        mid.shared.advertised.stamp ≠ st.shared.advertised.stamp ∧
        [tCluster, tRoute].Perm s.vars.subs.keys ∧
        exactNames.stillWanted (s.vars.sub tRoute) routeName :=
    ⟨_, _, _, rfl, rfl, rfl, rfl, rfl, by decide, by decide, by decide⟩
  obtain ⟨⟨st', s', arm, at_, back⟩, only⟩ := bump_pushes_route_only (by decide) run found idle
    latest between (by simp [twoBumps]) bumped visits
  have route := only _ st' s' (by simp) arm at_ back
  exact ⟨st, mid, st', s, s', run, between, arm, found, at_, wanted, route⟩

end DeltaRoutePush
