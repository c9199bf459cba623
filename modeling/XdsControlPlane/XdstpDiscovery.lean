import XdsControlPlane.XdstpServer
import XdsControlPlane.ConfigWalk
import XdsControlPlane.DeltaDifference

/-!
Chapter 5, the walk over xdstp names. The snapshot never changes, so no resource is
sent to a client twice and no stream is sent more responses than there are resources.
A client that subscribes to the two collections and then follows the references it
finds holds the whole graph once it has nothing left to ask, under both authorities,
and forwards to the upstream.
-/
namespace XdstpDiscovery
open ExecutableRuns SharedCells KeyedMaps IncrementalSync EnvoyMessages DeltaStream XdstpNames
  XdstpServer ConfigWalk ResourceGraphs
open DeltaSnapshots (Snapshot ResourceEntry)
open DeltaServer (Phase AdsStream)

def Wants (s : AdsStream) (t n : String) : Prop := (s.vars.sub t).matches n

instance (s : AdsStream) (t n : String) : Decidable (Wants s t n) :=
  inferInstanceAs (Decidable ((s.vars.sub t).matches n = true))

/-- Type and name of every resource that was sent, latest response first. -/
def delivered (rs : List DeltaDiscoveryResponse) : List (String × String) :=
  rs.flatMap fun r => r.resources.map fun x => (r.typeUrl, x.name)

/-- The client's reports are of what it holds. -/
def Reports (s : AdsStream) (r : DeltaDiscoveryRequest) : Prop :=
  ∀ n v, r.initialResourceVersions.lookup n = some v →
    ∃ e, s.cache r.typeUrl n = some e ∧ e.version = v

/-- The client of stream `i` opens it with nothing but resources of this control plane,
    if any, and reports nothing else. -/
def Truthful (i : Nat) (st : State) : Step → Prop
  | .spawn (.openStream cache) => st.tasks.length = i →
      ∀ t n e, cache t n = some e → st.shared.advertised.value.get t n = some e
  | .step j (.request r) => j = i → ∀ s, st.tasks[j]? = some s → Reports s r
  | _ => True

structure StreamOk (snap : Snapshot) (s : AdsStream) : Prop where
  awake : s.receiver.seen = 0
  watching : ∀ v todo, s.phase ≠ .watching v todo
  answering : ∀ t v, s.phase = .answering t v → v = snap
  held : ∀ t n e, s.cache t n = some e → snap.get t n = some e
  ledger : ∀ t n v, s.vars.ledger t n = some v → ∃ e, s.cache t n = some e ∧ e.version = v
  served : s.phase ≠ .closed → ∀ t, t ∉ s.phase.owed → ∀ n, Wants s t n →
    s.cache t n = snap.get t n
  once : (delivered s.outbox).Nodup
  recorded : ∀ k ∈ delivered s.outbox, s.vars.ledger k.1 k.2 ≠ none
  sent : ∀ r ∈ s.outbox, r.resources ≠ [] ∧ r.removedResources = [] ∧
    ∀ x ∈ r.resources, snap.get r.typeUrl x.name = some ⟨x.version, x.resource⟩

/- One send -/

section Send
variable {snap : Snapshot} {s : AdsStream} {typeUrl : String}

/-- A name in the ledger is in the snapshot, at the version in the ledger. -/
theorem ledger_held (ok : StreamOk snap s) {t n v : String} (known : s.vars.ledger t n = some v) :
    ∃ e, snap.get t n = some e ∧ e.version = v := by
  obtain ⟨e, inCache, version⟩ := ok.ledger t n v known
  exact ⟨e, ok.held t n e inCache, version⟩

theorem send_bridge (snap : Snapshot) (s : AdsStream) (typeUrl : String) :
    (deltaOf (sendDelta globNames typeUrl snap s.vars).2).Bridges (fun n => Wants s typeUrl n)
      (snap.get typeUrl) ResourceEntry.version (s.vars.ledger typeUrl) :=
  (send_delta_spec globNames typeUrl snap s.vars).bridges

theorem send_cache (snap : Snapshot) (s : AdsStream) (typeUrl t n : String) (next : Phase) :
    (s.send globNames typeUrl snap next).cache t n =
      if t = typeUrl then (deltaOf (sendDelta globNames typeUrl snap s.vars).2).apply
        (s.cache typeUrl) n
      else s.cache t n := send_receive globNames snap s.vars s.cache typeUrl t n

theorem wants_after_send (snap : Snapshot) (s : AdsStream) (typeUrl : String) (next : Phase)
    (t n : String) : Wants (s.send globNames typeUrl snap next) t n ↔ Wants s t n := by
  rw [Wants, Wants, ← sub_after_send globNames typeUrl snap s.vars t]
  rfl

theorem send_wanted (ok : StreamOk snap s) (next : Phase) {n : String} (wanted : Wants s typeUrl n) :
    (s.send globNames typeUrl snap next).cache typeUrl n = snap.get typeUrl n := by
  rw [send_cache, if_pos rfl]
  have bridges := send_bridge snap s typeUrl
  by_cases current : s.vars.ledger typeUrl n = (snap.get typeUrl n).map ResourceEntry.version
  · rw [apply_current bridges current]
    cases atN : snap.get typeUrl n with
    | none =>
      cases inCache : s.cache typeUrl n with
      | none => rfl
      | some e => simp [ok.held typeUrl n e inCache] at atN
    | some e =>
      rw [atN, Option.map_some] at current
      obtain ⟨e', inCache, _⟩ := ok.ledger typeUrl n e.version current
      rw [inCache, ← atN, ok.held typeUrl n e' inCache]
  · exact apply_stale bridges wanted current (s.cache typeUrl)

theorem send_unwanted (snap : Snapshot) (s : AdsStream) (next : Phase) {n : String}
    (unwanted : ¬ Wants s typeUrl n) :
    (s.send globNames typeUrl snap next).cache typeUrl n = s.cache typeUrl n := by
  rw [send_cache, if_pos rfl]
  exact apply_unwanted (send_bridge snap s typeUrl) unwanted (s.cache typeUrl)

theorem send_keeps (ok : StreamOk snap s) (next : Phase) {t n : String} {e : ResourceEntry}
    (inCache : s.cache t n = some e) : (s.send globNames typeUrl snap next).cache t n = some e := by
  by_cases isType : t = typeUrl
  · subst isType
    by_cases wanted : Wants s t n
    · rw [send_wanted ok next wanted, ok.held t n e inCache]
    · rw [send_unwanted snap s next wanted, inCache]
  · rw [send_cache, if_neg isType, inCache]

theorem send_held (ok : StreamOk snap s) (next : Phase) {t n : String} {e : ResourceEntry}
    (inCache : (s.send globNames typeUrl snap next).cache t n = some e) : snap.get t n = some e := by
  by_cases isType : t = typeUrl
  · subst isType
    by_cases wanted : Wants s t n
    · rw [← send_wanted ok next wanted, inCache]
    · exact ok.held t n e (send_unwanted snap s next wanted ▸ inCache)
  · rw [send_cache, if_neg isType] at inCache
    exact ok.held t n e inCache

variable (typeUrl) in
/-- A ledger that had a name keeps it, and one that has a new one has it for the cache. -/
theorem send_ledger_cases (ok : StreamOk snap s) (next : Phase) (t n : String) :
    (s.send globNames typeUrl snap next).vars.ledger t n = s.vars.ledger t n ∨
      ∃ e, snap.get t n = some e ∧ (s.send globNames typeUrl snap next).cache t n = some e ∧
        (s.send globNames typeUrl snap next).vars.ledger t n = some e.version := by
  have after : (s.send globNames typeUrl snap next).vars.ledger t n = _ :=
    send_ledger globNames snap s.vars typeUrl t n
  have bridges := send_bridge snap s typeUrl
  by_cases isType : t = typeUrl
  · subst isType
    rw [if_pos rfl] at after
    by_cases wanted : Wants s t n
    · rw [ledger_wanted bridges wanted] at after
      cases atN : snap.get t n with
      | some e =>
        refine Or.inr ⟨e, rfl, (send_wanted ok next wanted).trans atN, ?_⟩
        rw [after, atN, Option.map_some]
      | none =>
        refine Or.inl ?_
        rw [after, atN, Option.map_none]
        cases known : s.vars.ledger t n with
        | none => rfl
        | some v =>
          obtain ⟨e, atN', _⟩ := ledger_held ok known
          simp [atN] at atN'
    · rw [ledger_unwanted bridges wanted] at after
      exact Or.inl after
  · rw [if_neg isType] at after
    exact Or.inl after

variable (typeUrl) in
theorem send_response (ok : StreamOk snap s) {r : DeltaDiscoveryResponse}
    (sent : (sendDelta globNames typeUrl snap s.vars).2 = some r) :
    r.typeUrl = typeUrl ∧ r.removedResources = [] ∧ r.resources ≠ [] ∧
      (r.resources.map Resource.name).Nodup ∧ ∀ x ∈ r.resources,
        Wants s typeUrl x.name ∧ snap.get typeUrl x.name = some ⟨x.version, x.resource⟩ ∧
          s.vars.ledger typeUrl x.name = none := by
  have bridges := send_bridge snap s typeUrl
  obtain ⟨named, _, something⟩ := (send_delta_spec globNames typeUrl snap s.vars).response r sent
  rw [sent] at bridges
  have nothingRemoved : r.removedResources = [] := by
    rw [List.eq_nil_iff_forall_not_mem]
    intro n member
    obtain ⟨_, gone, known⟩ := (bridges.removals n).mp member
    obtain ⟨v, inLedger⟩ := Option.ne_none_iff_exists'.mp known
    obtain ⟨e, atN, _⟩ := ledger_held ok inLedger
    simp [gone] at atN
  refine ⟨named, nothingRemoved, something.resolve_right fun removed => removed nothingRemoved, ?_, ?_⟩
  · have distinct := bridges.distinct
    simp only [deltaOf, DeltaDiscoveryResponse.delta, List.map_map] at distinct
    exact distinct
  · intro x member
    obtain ⟨wanted, atX, stale⟩ :=
      (bridges.upserts x.name ⟨x.version, x.resource⟩).mp (List.mem_map_of_mem member)
    refine ⟨wanted, atX, ?_⟩
    cases known : s.vars.ledger typeUrl x.name with
    | none => rfl
    | some v =>
      obtain ⟨e, atX', version⟩ := ledger_held ok known
      rw [atX] at atX'
      cases Option.some.inj atX'
      exact absurd (known.trans (congrArg some version.symm)) stale

theorem send_outbox (snap : Snapshot) (s : AdsStream) (typeUrl : String) (next : Phase) :
    (s.send globNames typeUrl snap next).outbox =
      (sendDelta globNames typeUrl snap s.vars).2.toList ++ s.outbox := rfl

theorem send_recorded (snap : Snapshot) (s : AdsStream) (next : Phase) {n : String} {e : ResourceEntry}
    (wanted : Wants s typeUrl n) (atN : snap.get typeUrl n = some e) :
    (s.send globNames typeUrl snap next).vars.ledger typeUrl n ≠ none := by
  have after : (s.send globNames typeUrl snap next).vars.ledger typeUrl n = _ :=
    send_ledger globNames snap s.vars typeUrl typeUrl n
  rw [if_pos rfl, ledger_wanted (send_bridge snap s typeUrl) wanted, atN] at after
  simp [after]

theorem send_still_recorded (ok : StreamOk snap s) (next : Phase) {t n : String}
    (known : s.vars.ledger t n ≠ none) : (s.send globNames typeUrl snap next).vars.ledger t n ≠ none := by
  rcases send_ledger_cases typeUrl ok next t n with same | ⟨e, _, _, new⟩
  · rwa [same]
  · simp [new]

theorem send_ok (ok : StreamOk snap s) (phase : s.phase = .answering typeUrl snap) :
    StreamOk snap (s.send globNames typeUrl snap .select) := by
  have response := fun r sent => send_response typeUrl (r := r) ok sent
  constructor
  case awake => exact ok.awake
  case watching => simp [AdsStream.send]
  case answering => simp [AdsStream.send]
  case held => exact fun t n e => send_held ok .select
  case ledger =>
    intro t n v known
    rcases send_ledger_cases typeUrl ok .select t n with same | ⟨e, _, inCache, new⟩
    · obtain ⟨e, inCache, version⟩ := ok.ledger t n v (same ▸ known)
      exact ⟨e, send_keeps ok .select inCache, version⟩
    · exact ⟨e, inCache, Option.some.inj (new.symm.trans known)⟩
  case served =>
    intro _ t _ n wanted
    have before := (wants_after_send snap s typeUrl .select t n).mp wanted
    by_cases isType : t = typeUrl
    · subst isType
      exact send_wanted ok .select before
    · rw [send_cache, if_neg isType]
      exact ok.served (by simp [phase]) t (by simpa [phase, Phase.owed] using isType) n before
  case once =>
    rw [send_outbox]
    cases sent : (sendDelta globNames typeUrl snap s.vars).2 with
    | none => exact ok.once
    | some r =>
      obtain ⟨named, _, _, distinct, new⟩ := response r sent
      change (r.resources.map (fun x => (r.typeUrl, x.name)) ++ delivered s.outbox).Nodup
      rw [List.nodup_append']
      refine ⟨?_, ok.once, ?_⟩
      · apply List.Nodup.of_map Prod.snd
        rw [List.map_map]
        exact distinct
      · intro k inNew inOld
        obtain ⟨x, member, rfl⟩ := List.mem_map.mp inNew
        have known := ok.recorded _ inOld
        rw [named] at known
        exact known (new x member).2.2
  case recorded =>
    rw [send_outbox]
    cases sent : (sendDelta globNames typeUrl snap s.vars).2 with
    | none => exact fun k member => send_still_recorded ok .select (ok.recorded k member)
    | some r =>
      obtain ⟨named, _, _, _, new⟩ := response r sent
      intro k member
      change k ∈ r.resources.map (fun x => (r.typeUrl, x.name)) ++ delivered s.outbox at member
      rcases List.mem_append.mp member with inNew | inOld
      · obtain ⟨x, inResources, rfl⟩ := List.mem_map.mp inNew
        obtain ⟨wanted, atX, _⟩ := new x inResources
        rw [named]
        exact send_recorded snap s .select wanted atX
      · exact send_still_recorded ok .select (ok.recorded k inOld)
  case sent =>
    rw [send_outbox]
    cases sent : (sendDelta globNames typeUrl snap s.vars).2 with
    | none => exact ok.sent
    | some r =>
      obtain ⟨named, nothingRemoved, something, _, new⟩ := response r sent
      intro q member
      rcases List.mem_cons.mp member with rfl | old
      · exact ⟨something, nothingRemoved, fun x inResources => named ▸ (new x inResources).2.1⟩
      · exact ok.sent q old

end Send

/- Whole runs -/

section Requests
variable {snap : Snapshot} {s s' : AdsStream} {w : Control}

theorem record_ok (ok : StreamOk snap s) (phase : s.phase = .select) {r : DeltaDiscoveryRequest}
    (reports : Reports s r) : StreamOk snap { s with
      vars := s.vars.record r
      requests := s.requests ++ [r]
      phase := .answering r.typeUrl snap } := by
  have ledger := record_ledger s.vars r
  constructor
  case awake => exact ok.awake
  case watching => simp
  case answering =>
    rintro t v ⟨⟩
    rfl
  case held => exact ok.held
  case ledger =>
    intro t n v known
    rw [ledger] at known
    split at known
    · rename_i isType
      subst isType
      cases reported : r.initialResourceVersions.lookup n with
      | some v' =>
        rw [reported, Option.some_or] at known
        exact Option.some.inj known ▸ reports n v' reported
      | none =>
        rw [reported, Option.none_or] at known
        exact ok.ledger _ n v known
    · exact ok.ledger t n v known
  case served =>
    intro _ t notOwed n wanted
    have other : t ≠ r.typeUrl := by simpa [Phase.owed] using notOwed
    have before : Wants s t n := by
      rw [Wants, ← record_sub_other other]
      exact wanted
    exact ok.served (by simp [phase]) t (by simp [phase, Phase.owed]) n before
  case once => exact ok.once
  case recorded =>
    intro k member
    have known := ok.recorded k member
    simp only [ledger]
    split
    · cases r.initialResourceVersions.lookup k.2 with
      | some v => simp
      | none => simpa using known
    · exact known
  case sent => exact ok.sent

theorem stream_step_ok {a : Act} (ok : StreamOk snap s) (fixed : w.advertised = .channel snap)
    (reports : ∀ r, a = .request r → Reports s r) (step : StreamStep w s a s') : StreamOk snap s' := by
  have advertised : w.advertised.value = snap := by rw [fixed]; rfl
  cases step with
  | nack r phase isNack => exact { ok with }
  | record r phase clean =>
    rw [advertised]
    exact record_ok ok phase (reports r rfl)
  | respond typeUrl v phase =>
    cases ok.answering typeUrl v phase
    exact send_ok ok phase
  | wake order phase behind visits =>
    -- no one ever sends on the channel
    rw [fixed] at behind
    exact absurd ok.awake behind
  | deliver v typeUrl todo phase => exact absurd phase (ok.watching v (typeUrl :: todo))
  | finish v phase => exact absurd phase (ok.watching v [])
  | close =>
    refine { ok with watching := by simp, answering := by simp, served := ?_ }
    exact fun isOpen => absurd rfl isOpen

theorem opened_ok (fixed : w.advertised = .channel snap) {cache : Cache}
    (held : ∀ t n e, cache t n = some e → snap.get t n = some e) :
    StreamOk snap (.opened w.advertised cache) := by
  have nothing : ∀ t n, (AdsStream.opened w.advertised cache).vars.ledger t n = none := by
    intro t n
    simp [AdsStream.opened, StreamVars.opened, StreamVars.ledger, entryOr]
  constructor
  case awake => simp [AdsStream.opened, fixed, Watch.channel, Watch.subscribe]
  case watching => simp [AdsStream.opened]
  case answering => simp [AdsStream.opened]
  case held => exact held
  case ledger =>
    intro t n v known
    simp [nothing] at known
  case served =>
    intro _ t _ n wanted
    have nobody : TypeSub.matches default n = false := rfl
    simp [Wants, AdsStream.opened, StreamVars.opened, StreamVars.sub, entryOr, nobody] at wanted
  case once => exact List.nodup_nil
  case recorded => simp [AdsStream.opened, delivered]
  case sent => simp [AdsStream.opened]

end Requests

structure ServerOk (ip : String) (i : Nat) (st : State) : Prop where
  fixed : st.shared.advertised = .channel (build ip)
  stream : ∀ s, st.tasks[i]? = some s → StreamOk (build ip) s

theorem server_ok_next {ip : String} {i : Nat} {st st' : State} {e : Step} (ok : ServerOk ip i st)
    (truthful : Truthful i st e) (h : server.next st e = some st') : ServerOk ip i st' := by
  rcases next_cases h with ⟨call, rfl, rfl⟩ | ⟨j, a, s, w, s', rfl, found, moved, rfl⟩
  · cases call with
    | openStream cache =>
      refine ⟨ok.fixed, ?_⟩
      intro s atI
      rcases getElem?_append_one atI with old | ⟨last, rfl⟩
      · exact ok.stream s old
      · apply opened_ok ok.fixed
        intro t n e inCache
        have held := truthful last.symm t n e inCache
        rwa [ok.fixed] at held
  · obtain ⟨rfl, step⟩ := task_step moved
    refine ⟨ok.fixed, ?_⟩
    intro u atI
    rcases getElem?_set_cases atI with ⟨rfl, rfl⟩ | ⟨_, old⟩
    · apply stream_step_ok (ok.stream s found) ok.fixed ?_ step
      rintro r rfl
      exact truthful rfl s found
    · exact ok.stream u old

theorem start_ok (ip : String) (i : Nat) : ServerOk ip i (start ip) :=
  ⟨rfl, by simp [start]⟩

theorem stream_ok {ip : String} {i : Nat} {es : List Step} {st : State} {s : AdsStream}
    (truthful : Along server.next (Truthful i) (start ip) es)
    (run : exec server.next (start ip) es = some st) (found : st.tasks[i]? = some s) :
    StreamOk (build ip) s :=
  (along_invariant (fun _ _ _ ok allowed h => server_ok_next ok allowed h) run truthful
    (start_ok ip i)).stream s found

/- The walk of the demo -/

/-- The collections of the bootstrap. -/
def ldsResourcesLocator : String := "xdstp://hardway/envoy.config.listener.v3.Listener/*"
def cdsResourcesLocator : String := "xdstp://edge/envoy.config.cluster.v3.Cluster/*"

/-- The client subscribes to both collections. -/
structure Bootstraps (s : AdsStream) : Prop where
  lds : ldsResourcesLocator ∈ (s.vars.sub tListener).names
  cds : cdsResourcesLocator ∈ (s.vars.sub tCluster).names

/-- It subscribes to all that the resources it holds refer to. -/
def Follows (s : AdsStream) : Prop :=
  ∀ t n e, s.cache t n = some e → ∀ k ∈ references e.body.value, Wants s k.1 k.2

/-- The requests of the chapter's demo, in the order in which its log shows them. -/
def subscribeTo (typeUrl name : String) : DeltaDiscoveryRequest :=
  ⟨typeUrl, [name], [], ∅, "", none⟩

def demoWalk : List Step :=
  [.spawn (.openStream fun _ _ => none),
    .step 0 (.request (subscribeTo tCluster cdsResourcesLocator)), .step 0 .respond,
    .step 0 (.request (subscribeTo tEndpoint edsName)), .step 0 .respond,
    .step 0 (.request (subscribeTo tListener ldsResourcesLocator)), .step 0 .respond,
    .step 0 (.request (subscribeTo tRoute rdsName)), .step 0 .respond]

theorem silent_truthful (i : Nat) (st : State) (j : Nat) (t n : String) :
    Truthful i st (.step j (.request (subscribeTo t n))) := by
  intro _ s _ m v reported
  have nothing : (subscribeTo t n).initialResourceVersions.lookup m = none := rfl
  rw [nothing] at reported
  contradiction

theorem demo_walk_truthful : Along server.next (Truthful 0) (start "10.0.0.1") demoWalk := by
  have opens : ∀ st, Truthful 0 st (.spawn (.openStream fun _ _ => none)) := by
    intro _ _ t n e inCache
    contradiction
  have silent := silent_truthful 0
  exact fun _ _ => ⟨opens _, fun _ _ => ⟨silent _ _ _ _, fun _ _ => ⟨trivial,
    fun _ _ => ⟨silent _ _ _ _, fun _ _ => ⟨trivial, fun _ _ => ⟨silent _ _ _ _,
    fun _ _ => ⟨trivial, fun _ _ => ⟨silent _ _ _ _, fun _ _ => ⟨trivial, trivial⟩⟩⟩⟩⟩⟩⟩⟩⟩

/-- All that the demo's client asks for is of the catalogue, and it is given all of it. -/
theorem demo_walk_runs :
    ∃ st s, exec server.next (start "10.0.0.1") demoWalk = some st ∧ st.tasks[0]? = some s ∧
      s.phase = .select ∧ Bootstraps s ∧ (∀ k ∈ catalogue, Wants s k.1 k.2) ∧
      s.outbox.length = 4 :=
  ⟨_, _, rfl, rfl, rfl, ⟨by decide, by decide⟩, by decide, by decide⟩

section Runs
variable {ip : String} {i : Nat} {es : List Step} {st : State} {s : AdsStream}

theorem responses_le_delivered {rs : List DeltaDiscoveryResponse}
    (full : ∀ r ∈ rs, r.resources ≠ []) : rs.length ≤ (delivered rs).length := by
  induction rs with
  | nil => exact Nat.le_refl _
  | cons r rs ih =>
    have rest := ih fun q member => full q (List.mem_cons_of_mem r member)
    have one := List.length_pos_of_ne_nil (full r List.mem_cons_self)
    have split : delivered (r :: rs) =
        r.resources.map (fun x => (r.typeUrl, x.name)) ++ delivered rs := rfl
    rw [split, List.length_append, List.length_map, List.length_cons]
    omega

/-- In every interleaving of any number of streams, whatever a client subscribes to,
    unsubscribes from, acknowledges or rejects: no resource is sent to it twice on one
    stream, each is sent with the snapshot's version and body, none is ever removed,
    and there are never more than four responses. -/
theorem each_resource_sent_once (truthful : Along server.next (Truthful i) (start ip) es)
    (run : exec server.next (start ip) es = some st) (found : st.tasks[i]? = some s) :
    (delivered s.outbox).Nodup ∧ (∀ k ∈ delivered s.outbox, k ∈ catalogue) ∧
    (∀ r ∈ s.outbox, ∀ x ∈ r.resources,
      (build ip).get r.typeUrl x.name = some ⟨x.version, x.resource⟩) ∧
    (∀ r ∈ s.outbox, r.removedResources = []) ∧ s.outbox.length ≤ 4 := by
  have ok := stream_ok truthful run found
  have listed : ∀ k ∈ delivered s.outbox, k ∈ catalogue := by
    intro k member
    obtain ⟨r, inOutbox, inResponse⟩ := List.mem_flatMap.mp member
    obtain ⟨x, inResources, rfl⟩ := List.mem_map.mp inResponse
    exact (build_held ((ok.sent r inOutbox).2.2 x inResources)).1
  refine ⟨ok.once, listed, fun r member => (ok.sent r member).2.2,
    fun r member => (ok.sent r member).2.1, ?_⟩
  have few := ok.once.length_le_of_subset listed
  have full := responses_le_delivered fun r member => (ok.sent r member).1
  have four : catalogue.length = 4 := rfl
  omega

theorem demo_each_sent_once :
    ∃ st s, exec server.next (start "10.0.0.1") demoWalk = some st ∧ st.tasks[0]? = some s ∧
      s.outbox.length = 4 ∧ (delivered s.outbox).Nodup ∧ ∀ r ∈ s.outbox, ∀ x ∈ r.resources,
        (build "10.0.0.1").get r.typeUrl x.name = some ⟨x.version, x.resource⟩ := by
  obtain ⟨st, s, run, found, _, _, _, four⟩ := demo_walk_runs
  obtain ⟨once, _, whole, _⟩ := each_resource_sent_once demo_walk_truthful run found
  exact ⟨st, s, run, found, four, once, whole⟩

/- The walk -/

def IsRoot (k : String × String) : Prop := k = (tListener, ldsName) ∨ k = (tCluster, cdsName)

theorem glob_wants {authority t id : String} {sub : TypeSub} (subscribed : xdstp authority t "*" ∈ sub.names)
    (authorityOk : SlashFree authority) (typeOk : SlashFree (proto t)) :
    sub.matches (xdstp authority t id) := by
  have starts := (in_collection_iff authorityOk authorityOk typeOk typeOk id).mpr ⟨rfl, rfl⟩
  simp only [TypeSub.matches, Bool.or_eq_true, List.any_eq_true]
  refine Or.inr ⟨xdstp authority t "*", subscribed, ?_⟩
  rw [glob_stripped]
  exact starts

theorem roots_wanted (bootstraps : Bootstraps s) {k : String × String} (isRoot : IsRoot k) :
    Wants s k.1 k.2 := by
  have lds : ldsResourcesLocator = xdstp authHw tListener "*" := by decide
  have cds : cdsResourcesLocator = xdstp authEdge tCluster "*" := by decide
  rcases isRoot with rfl | rfl
  · exact glob_wants (lds ▸ bootstraps.lds) (by decide) (by decide)
  · exact glob_wants (cds ▸ bootstraps.cds) (by decide) (by decide)

theorem given_wanted (ok : StreamOk (build ip) s) (idle : s.phase = .select) {k : String × String}
    (wanted : Wants s k.1 k.2) : s.cache k.1 k.2 = (build ip).get k.1 k.2 :=
  ok.served (by simp [idle]) k.1 (by simp [idle, Phase.owed]) k.2 wanted

theorem walked (ok : StreamOk (build ip) s) (idle : s.phase = .select) (bootstraps : Bootstraps s)
    (follows : Follows s) :
    (graph (build ip) IsRoot).Explored (fun k => Wants s k.1 k.2) fun k => s.cache k.1 k.2 := by
  constructor
  case given => exact fun k wanted => congrArg (Option.map _) (given_wanted ok idle wanted)
  case roots => exact fun k isRoot => roots_wanted bootstraps isRoot
  case refs => exact fun k e held => follows k.1 k.2 e held

theorem build_lds (ip : String) : (build ip).get tListener ldsName =
    some ⟨"v1", any tListener (.listener listener)⟩ := by
  rw [build_get, if_neg (by decide), if_neg (by decide), if_neg (by decide), if_pos ⟨rfl, rfl⟩]

theorem build_rds (ip : String) : (build ip).get tRoute rdsName =
    some ⟨"v1", any tRoute (.routeConfiguration routeConfig)⟩ := by
  rw [build_get, if_neg (by decide), if_neg (by decide), if_pos ⟨rfl, rfl⟩]

theorem build_cds (ip : String) : (build ip).get tCluster cdsName =
    some ⟨"v1", any tCluster (.cluster cluster)⟩ := by
  rw [build_get, if_neg (by decide), if_pos ⟨rfl, rfl⟩]

theorem build_eds (ip : String) : (build ip).get tEndpoint edsName =
    some ⟨"v1", any tEndpoint (.clusterLoadAssignment (endpoints ip))⟩ := by
  rw [build_get, if_pos ⟨rfl, rfl⟩]

theorem listener_refs : references (.listener listener) = [(tRoute, rdsName)] := rfl

theorem route_refs : references (.routeConfiguration routeConfig) = [(tCluster, cdsName)] := rfl

theorem cluster_refs : references (.cluster cluster) = [(tEndpoint, edsName)] := by decide

theorem catalogue_reachable (ip : String) :
    ∀ k ∈ catalogue, (graph (build ip) IsRoot).Reachable k := by
  have lds : (graph (build ip) IsRoot).Reachable (tListener, ldsName) := .root (Or.inl rfl)
  have cds : (graph (build ip) IsRoot).Reachable (tCluster, cdsName) := .root (Or.inr rfl)
  have rdsNamed : (tRoute, rdsName) ∈ references (.listener listener) := by simp [listener_refs]
  have edsNamed : (tEndpoint, edsName) ∈ references (.cluster cluster) := by simp [cluster_refs]
  intro k member
  simp only [catalogue, List.mem_cons, List.not_mem_nil, or_false] at member
  rcases member with rfl | rfl | rfl | rfl
  · exact lds
  · exact .ref lds (build_lds ip) rdsNamed
  · exact cds
  · exact .ref cds (build_cds ip) edsNamed

theorem endpoints_refs (ip : String) : references (.clusterLoadAssignment (endpoints ip)) = [] := rfl

theorem refs_in_catalogue {ip t n : String} {e : ResourceEntry} (held : (build ip).get t n = some e)
    {k : String × String} (named : k ∈ references e.body.value) : k ∈ catalogue := by
  rw [build_get] at held
  split_ifs at held <;> cases held <;>
    simp only [any, listener_refs, route_refs, cluster_refs, endpoints_refs, List.mem_singleton,
      List.not_mem_nil] at named <;> simp [catalogue, named]

theorem follows_of_catalogue (ok : StreamOk (build ip) s)
    (wanted : ∀ k ∈ catalogue, Wants s k.1 k.2) : Follows s :=
  fun t n e inCache k named => wanted k (refs_in_catalogue (ok.held t n e inCache) named)

theorem build_forwards (ip : String) : forwards (build ip).get ldsName = [⟨ip, upstreamPort⟩] :=
  calc addressesFrom (build ip).get 4 (tListener, ldsName)
    _ = addressesFrom (build ip).get 3 (tRoute, rdsName) := addresses_pass (build_lds ip) rfl 3
    _ = addressesFrom (build ip).get 2 (tCluster, cdsName) := addresses_pass (build_rds ip) rfl 2
    _ = addressesFrom (build ip).get 1 (tEndpoint, edsName) :=
      addresses_pass (build_cds ip) (by decide) 1
    _ = [⟨ip, upstreamPort⟩] := addresses_end (build_eds ip) rfl 0

end Runs

end XdstpDiscovery
