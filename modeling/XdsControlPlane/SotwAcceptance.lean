import XdsControlPlane.SotwRollback

/-!
Who accepted the rollback target. `push_good` stores its snapshot in `last_good`
before any client has seen it, and no ACK touches `last_good`. A client that ACKs
only what it was sent cannot have ACKed the stored version: a push keeps its number
to itself until it stores or publishes. So the first store already makes a target
that nobody accepted.
-/
namespace SotwAcceptance
open ExecutableRuns SharedCells KeyedMaps EnvoyMessages SotwSnapshots SotwServer SotwConvergence
  SotwRollback

/- The rollback target -/

def Accepted (w : World) (snap : Snapshot) : Prop :=
  snap.version = "v1" ∨ snap.version ∈ w.acked

/-- The rollback target is the startup snapshot or one that a client has ACKed,
    so a finished NACK handler never leaves a version advertised that nobody ACKed. -/
structure TargetAccepted (ip : String) (st : State) : Prop where
  lastGood : st.shared.lastGood = Snapshot.good "v1" ip ∨
    st.shared.lastGood.version ∈ st.shared.acked
  rollback : ∀ i st', server.next st (.step i .rollback) = some st' →
    ∀ v, v ≠ "v1" → v ∉ st'.shared.acked → st'.shared.advertised.value.version ≠ v

/-- A push_good stores only a snapshot whose version has been ACKed before. -/
def StoresAccepted (st : State) (e : Step) : Prop :=
  ∀ (i : Nat) snap, e = .step i .proceed →
    st.tasks[i]? = some (.push (.numbered .good snap)) → Accepted st.shared snap

def NackingAccepted (st : State) : Prop :=
  ∀ (i : Nat) s good, st.tasks[i]? = some (.stream s) → s.phase = .nacking good →
    Accepted st.shared good

def PushBuilt (ip : String) : ControlTask → Prop
  | .push (.numbered kind snap) => snap = kind.snapshot snap.version ip
  | _ => True

abbrev BuiltOk (ip : String) : State → Prop := Holds (·.upstreamIp = ip) fun _ _ => PushBuilt ip

theorem built_ok_next {ip : String} {st st' : State} {e : Step} (ok : BuiltOk ip st)
    (h : server.next st e = some st') : BuiltOk ip st' := by
  refine holds_next (fun i w c _ address => ?_) (fun _ _ _ _ _ _ built => built) ?_
    (fun _ _ _ _ _ _ _ _ _ _ built _ => built) (fun _ _ => trivial) ok h
  · cases c with
    | push kind => subst address; cases kind <;> exact ⟨rfl, rfl⟩
    | openStream => exact ⟨address, trivial⟩
  · intro i w t a w' t' address _ moved
    rcases task_step moved with ⟨p, p', rfl, rfl, step⟩ | ⟨s, s', rfl, rfl, step⟩
    · cases step <;> exact ⟨address, trivial⟩
    · exact ⟨(stream_step_frame step).2.2.trans address, trivial⟩

theorem start_built_ok (ip : String) : BuiltOk ip (start ip) := ⟨rfl, nofun⟩

theorem acked_next {st st' : State} {e : Step} (h : server.next st e = some st') {v : String}
    (acked : v ∈ st.shared.acked) : v ∈ st'.shared.acked := by
  rcases next_cases h with ⟨c, rfl, rfl⟩ | ⟨i, a, t, w', t', rfl, _, moved, rfl⟩
  · cases c <;> exact acked
  · rcases task_step moved with ⟨p, p', rfl, rfl, step⟩ | ⟨s, s', rfl, rfl, step⟩
    · cases step <;> exact acked
    · cases step with
      | ack r phase notNack answers => exact List.mem_append_left _ acked
      | _ => exact acked

theorem last_good_next {st st' : State} {e : Step} (h : server.next st e = some st') :
    (st'.shared.lastGood = st.shared.lastGood ∧
      ∀ (i : Nat) snap, e = .step i .proceed →
        st.tasks[i]? ≠ some (.push (.numbered .good snap))) ∨
    (∃ i snap, e = .step i .proceed ∧ st.tasks[i]? = some (.push (.numbered .good snap)) ∧
      st'.shared.lastGood = snap ∧ st'.shared.acked = st.shared.acked) := by
  rcases next_cases h with ⟨c, rfl, rfl⟩ | ⟨i, a, t, w', t', rfl, found, moved, rfl⟩
  · cases c <;> exact Or.inl ⟨rfl, nofun⟩
  · rcases task_step moved with ⟨p, p', rfl, rfl, step⟩ | ⟨s, s', rfl, rfl, step⟩
    · cases a with
      | proceed =>
        cases step with
        | store snap => exact Or.inr ⟨i, snap, rfl, found, rfl, rfl⟩
        | publishBroken snap =>
          refine Or.inl ⟨rfl, fun j other eq found' => ?_⟩
          cases eq
          cases found.symm.trans found'
        | publishGood snap =>
          refine Or.inl ⟨rfl, fun j other eq found' => ?_⟩
          cases eq
          cases found.symm.trans found'
      | _ => cases moved
    · refine Or.inl ⟨(stream_step_frame step).1, fun j snap eq found' => ?_⟩
      cases eq
      cases found.symm.trans found'

theorem nacking_next {st st' : State} {e : Step} (h : server.next st e = some st') {i : Nat}
    {s : AdsStream} {good : Snapshot} (found : st'.tasks[i]? = some (.stream s))
    (nacking : s.phase = .nacking good) :
    good = st.shared.lastGood ∨
      ∃ s, st.tasks[i]? = some (.stream s) ∧ s.phase = .nacking good := by
  rcases next_cases h with ⟨c, rfl, rfl⟩ | ⟨j, a, t, w', t', rfl, foundJ, moved, rfl⟩
  · rcases getElem?_append_one found with old | ⟨_, eq⟩
    · exact Or.inr ⟨s, old, nacking⟩
    · cases c <;> cases eq
      cases nacking
  · rcases getElem?_set_cases found with ⟨rfl, eq⟩ | ⟨_, old⟩
    · rcases task_step moved with ⟨p, p', rfl, rfl, step⟩ | ⟨u, u', rfl, rfl, step⟩
      · cases eq
      · cases eq
        exact Or.inl (stream_step_nacking step nacking)
    · exact Or.inr ⟨s, old, nacking⟩

theorem rollback_accepted_iff {st : State} :
    (∀ i st', server.next st (.step i .rollback) = some st' →
      ∀ v, v ≠ "v1" → v ∉ st'.shared.acked → st'.shared.advertised.value.version ≠ v) ↔
    NackingAccepted st := by
  constructor
  · intro clean i s good found nacking
    have moved : server.next st (.step i .rollback) =
        some ⟨{ st.shared with advertised := st.shared.advertised.send good },
          st.tasks.set i (.stream { s with phase := .select })⟩ := by
      simp [Program.next, server, found, stepTask, stepStream, nacking]
    by_contra rejected
    simp only [Accepted, not_or] at rejected
    exact clean i _ moved good.version rejected.1 rejected.2 rfl
  · intro accepted i st' h v notFirst notAcked same
    rcases next_cases h with ⟨c, eq, _⟩ | ⟨j, a, t, w', t', eq, found, moved, rfl⟩
    · cases eq
    · cases eq
      rcases task_step moved with ⟨p, p', rfl, rfl, step⟩ | ⟨s, s', rfl, rfl, step⟩
      · cases moved
      · cases step with
        | rollback good nacking =>
          subst same
          rcases accepted _ s good found nacking with first | acked
          · exact notFirst first
          · exact notAcked acked

theorem target_accepted_next {ip : String} {st st' : State} {e : Step} (built : BuiltOk ip st)
    (before : TargetAccepted ip st) (h : server.next st e = some st') :
    TargetAccepted ip st' ↔ StoresAccepted st e := by
  have goodBefore : Accepted st.shared st.shared.lastGood :=
    before.lastGood.imp_left fun first => by rw [first]; rfl
  have grows : ∀ snap, Accepted st.shared snap → Accepted st'.shared snap := fun _ accepted =>
    accepted.imp_right (acked_next h)
  have nacking : NackingAccepted st' := by
    intro i s good found phase
    rcases nacking_next h found phase with rfl | ⟨s, old, phase⟩
    · exact grows _ goodBefore
    · exact grows _ (rollback_accepted_iff.mp before.rollback i s good old phase)
  rcases last_good_next h with ⟨same, notStore⟩ | ⟨i, snap, rfl, found, stored, sameAcked⟩
  · refine iff_of_true ⟨?_, rollback_accepted_iff.mpr nacking⟩ fun i snap eq found =>
      absurd found (notStore i snap eq)
    rw [same]
    exact before.lastGood.imp_right (acked_next h)
  · have isGood : snap = Snapshot.good snap.version ip := built.task i _ found
    constructor
    · intro after j snap' eq found'
      cases eq
      cases found.symm.trans found'
      rcases after.lastGood with first | acked
      · exact Or.inl (by rw [← stored, first]; rfl)
      · exact Or.inr (by rwa [stored, sameAcked] at acked)
    · intro stores
      refine ⟨?_, rollback_accepted_iff.mpr nacking⟩
      rcases stores i snap rfl found with first | acked
      · exact Or.inl (by rw [stored, isGood, first])
      · exact Or.inr (by rwa [stored, sameAcked])

/-- In every run the rollback target is accepted throughout if and only if no
    push_good stored a version before some client had ACKed it. -/
theorem target_accepted_iff_stores_accepted (ip : String) (es : List Step) :
    Always server.next (TargetAccepted ip) (start ip) es ↔
      Along server.next StoresAccepted (start ip) es :=
  always_iff_along (fun _ _ _ built h => built_ok_next built h)
    (fun _ _ _ built before h => target_accepted_next built before h) es (start_built_ok ip)
    ⟨Or.inl rfl, rollback_accepted_iff.mpr nofun⟩

/- What a push keeps to itself -/

def NoStore (st : State) (e : Step) : Prop :=
  ∀ (i : Nat) snap, e = .step i .proceed → st.tasks[i]? ≠ some (.push (.numbered .good snap))

def sentBy : ControlTask → List DiscoveryResponse
  | .push _ => []
  | .stream s => s.outbox.responses

/-- An ACK names the version of a response that its stream was sent. -/
def AcksSent (st : State) : Step → Prop
  | .step i (.request q) => ¬ q.IsNack → q.responseNonce ≠ "" →
      ∀ t ∈ st.tasks[i]?, ∃ r ∈ sentBy t, r.versionInfo = q.versionInfo
  | _ => True

instance (st : State) : (e : Step) → Decidable (AcksSent st e)
  | .step i (.request q) => inferInstanceAs (Decidable (¬ q.IsNack → q.responseNonce ≠ "" →
      ∀ t ∈ st.tasks[i]?, ∃ r ∈ sentBy t, r.versionInfo = q.versionInfo))
  | .spawn _ | .step _ .proceed | .step _ .respond | .step _ .rollback | .step _ (.wake _)
  | .step _ .deliver | .step _ .close => isTrue trivial

/-- The version is one that a client may know or a rollback may bring back. -/
def Shown (v : String) (w : World) : Prop :=
  v = "v1" ∨ v ∈ w.acked ∨ w.advertised.value.version = v ∨ w.lastGood.version = v

def Carries (v : String) : ControlTask → Prop
  | .push (.numbered _ snap) => snap.version = v
  | .push (.stored snap) => snap.version = v
  | .push .done => False
  | .stream s => (∃ snap, s.phase.sending = some snap ∧ snap.version = v) ∨
      (∃ good, s.phase = .nacking good ∧ good.version = v) ∨
      ∃ r ∈ s.outbox.responses, r.versionInfo = v

/-- A push that has only drawn its number has the version to itself. -/
structure Unshown (st : State) : Prop where
  server : ServerOk st
  acked : ∀ v ∈ st.shared.acked, ∃ snap ∈ st.shared.issued, snap.version = v
  world : ∀ (i : Nat) kind snap, st.tasks[i]? = some (.push (.numbered kind snap)) →
    ¬ Shown snap.version st.shared
  tasks : ∀ (i : Nat) kind snap, st.tasks[i]? = some (.push (.numbered kind snap)) →
    ∀ (j : Nat) t, j ≠ i → st.tasks[j]? = some t → ¬ Carries snap.version t

section Pushes
variable {st st' : State} {e : Step} {w w' : World} {v : String} {t : ControlTask}

theorem push_step_carries {p p' : Push} (step : PushStep w p w' p')
    (after : Shown v w' ∨ Carries v (.push p')) : Shown v w ∨ Carries v (.push p) := by
  cases step with
  | store snap =>
    rcases after with (first | acked | advertised | stored) | carried
    · exact Or.inl (Or.inl first)
    · exact Or.inl (Or.inr (Or.inl acked))
    · exact Or.inl (Or.inr (Or.inr (Or.inl advertised)))
    · exact Or.inr stored
    · exact Or.inr carried
  | publishBroken snap =>
    rcases after with (first | acked | advertised | lastGood) | carried
    · exact Or.inl (Or.inl first)
    · exact Or.inl (Or.inr (Or.inl acked))
    · exact Or.inr advertised
    · exact Or.inl (Or.inr (Or.inr (Or.inr lastGood)))
    · exact absurd carried id
  | publishGood snap =>
    rcases after with (first | acked | advertised | lastGood) | carried
    · exact Or.inl (Or.inl first)
    · exact Or.inl (Or.inr (Or.inl acked))
    · exact Or.inr advertised
    · exact Or.inl (Or.inr (Or.inr (Or.inr lastGood)))
    · exact absurd carried id

theorem pushed_versions {typeUrl : String} {snap : Snapshot} {o : Outbox} {r : DiscoveryResponse}
    (member : r ∈ (pushIfNew typeUrl snap o).responses) :
    r.versionInfo = snap.version ∨ r ∈ o.responses := by
  rcases push_if_new_cases typeUrl snap o with ⟨same, _⟩ | ⟨resp, built, _, sent⟩
  · exact Or.inr (same ▸ member)
  · rw [sent] at member
    rcases List.mem_cons.mp member with rfl | old
    · exact Or.inl (build_response_fields built).2.1
    · exact Or.inr old

theorem sending_carries {s : AdsStream} {next : Phase} {typeUrl : String} {snap : Snapshot}
    (pays : Pays s.phase next typeUrl snap)
    (after : Carries v
      (.stream { s with outbox := pushIfNew typeUrl snap s.outbox, phase := next })) :
    Carries v (.stream s) := by
  rcases after with ⟨snap', sending, version⟩ | ⟨good, nacking, _⟩ | ⟨r, sent, version⟩
  · exact Or.inl ⟨snap, pays.sending, pays.nextSending snap' sending ▸ version⟩
  · exact absurd nacking (pays.notNacking good)
  · rcases pushed_versions sent with new | old
    · exact Or.inl ⟨snap, pays.sending, new.symm.trans version⟩
    · exact Or.inr (Or.inr ⟨r, old, version⟩)

theorem taking_carries {s s' : AdsStream} (after : Carries v (.stream s'))
    (outbox : s'.outbox = s.outbox)
    (sending : ∀ snap, s'.phase.sending = some snap → snap = w.advertised.value)
    (nacking : ∀ good, s'.phase = .nacking good → good = w.lastGood) : Shown v w ∨ Carries v (.stream s) := by
  rcases after with ⟨snap, inHand, version⟩ | ⟨good, inHand, version⟩ | sent
  · exact Or.inl (Or.inr (Or.inr (Or.inl (sending snap inHand ▸ version))))
  · exact Or.inl (Or.inr (Or.inr (Or.inr (nacking good inHand ▸ version))))
  · exact Or.inr (Or.inr (Or.inr (outbox ▸ sent)))

theorem stream_step_carries {s s' : AdsStream} {a : Act} (step : StreamStep w s a w' s')
    (acks : ∀ q, a = .request q → ¬ q.IsNack → q.responseNonce ≠ "" →
      ∃ r ∈ s.outbox.responses, r.versionInfo = q.versionInfo)
    (after : Shown v w' ∨ Carries v (.stream s')) : Shown v w ∨ Carries v (.stream s) := by
  cases step with
  | nack r phase isNack =>
    exact after.elim Or.inl fun carried =>
      taking_carries carried rfl nofun fun good inHand => by cases inHand; rfl
  | subscribe r phase isSubscribe =>
    exact after.elim Or.inl fun carried =>
      taking_carries carried rfl (fun snap inHand => by cases inHand; rfl) nofun
  | ack r phase notNack answers =>
    rcases after with (first | acked | known) | carried
    · exact Or.inl (Or.inl first)
    · rcases List.mem_append.mp acked with old | new
      · exact Or.inl (Or.inr (Or.inl old))
      · obtain ⟨q, sent, version⟩ := acks r rfl (by simp [notNack]) answers
        exact Or.inr (Or.inr (Or.inr ⟨q, sent, version.trans (List.mem_singleton.mp new).symm⟩))
    · exact Or.inl (Or.inr (Or.inr known))
    · exact taking_carries carried rfl nofun nofun
  | respond typeUrl snap phase => exact after.imp_right (sending_carries (respond_pays phase))
  | rollback good phase =>
    rcases after with (first | acked | advertised | lastGood) | carried
    · exact Or.inl (Or.inl first)
    · exact Or.inl (Or.inr (Or.inl acked))
    · exact Or.inr (Or.inr (Or.inl ⟨good, phase, advertised⟩))
    · exact Or.inl (Or.inr (Or.inr (Or.inr lastGood)))
    · exact taking_carries carried rfl nofun nofun
  | wake order phase behind visits =>
    exact after.elim Or.inl fun carried =>
      taking_carries carried rfl (fun snap inHand => by cases inHand; rfl) nofun
  | deliver snap typeUrl todo phase => exact after.imp_right (sending_carries (deliver_pays phase))
  | finish snap phase =>
    exact after.elim Or.inl fun carried => taking_carries carried rfl nofun nofun
  | close notNacking =>
    exact after.elim Or.inl fun carried => taking_carries carried rfl nofun nofun

theorem step_carries {i : Nat} {a : Act} {t' : ControlTask} (found : st.tasks[i]? = some t)
    (acks : AcksSent st (.step i a)) (moved : stepTask st.shared t a = some (w', t'))
    (after : Shown v w' ∨ Carries v t') : Shown v st.shared ∨ Carries v t := by
  rcases task_step moved with ⟨p, p', rfl, rfl, step⟩ | ⟨s, s', rfl, rfl, step⟩
  · exact push_step_carries step after
  · refine stream_step_carries step (fun q isRequest notNack answers => ?_) after
    subst isRequest
    exact acks notNack answers _ found

theorem first_issued (world : WorldOk w) : ∃ snap ∈ w.issued, snap.version = "v1" := by
  have first : versionLabel (UInt64.ofNat 1) = "v1" := by decide
  obtain ⟨snap, found⟩ : ∃ snap, w.issued[0]? = some snap :=
    ⟨_, List.getElem?_eq_getElem (List.length_pos_of_mem world.advertised)⟩
  exact ⟨snap, List.mem_of_getElem? found, (world.numbered 0 snap found).trans first⟩

theorem shown_issued (ok : Unshown st) (shown : Shown v st.shared) :
    ∃ snap ∈ st.shared.issued, snap.version = v := by
  rcases shown with rfl | acked | advertised | lastGood
  · exact first_issued ok.server.shared
  · exact ok.acked v acked
  · exact ⟨_, ok.server.shared.advertised, advertised⟩
  · exact ⟨_, ok.server.shared.lastGood, lastGood⟩

theorem carries_issued (ok : TaskOk w t) (carries : Carries v t) :
    ∃ snap ∈ w.issued, snap.version = v := by
  cases t with
  | push p =>
    cases p with
    | numbered kind snap => exact ⟨snap, ok, carries⟩
    | stored snap => exact ⟨snap, ok, carries⟩
    | done => exact absurd carries id
  | stream s =>
    have stream : StreamOk w s := ok
    rcases carries with ⟨snap, sending, version⟩ | ⟨good, nacking, version⟩ | ⟨r, sent, version⟩
    · exact ⟨snap, stream.sending snap sending, version⟩
    · exact ⟨good, stream.nacking good nacking, version⟩
    · obtain ⟨snap, issued, built⟩ := stream.outbox.rendered r sent
      exact ⟨snap, issued, (build_response_fields built).2.1.symm.trans version⟩

theorem unshown_spawn (ok : Unshown st) (call : Call)
    (few : (spawn st.shared call).1.issued.length ≤ 2 ^ 64)
    (server : ServerOk ⟨(spawn st.shared call).1, st.tasks ++ [(spawn st.shared call).2]⟩) :
    Unshown ⟨(spawn st.shared call).1, st.tasks ++ [(spawn st.shared call).2]⟩ := by
  cases call with
  | openStream =>
    have old : ∀ (i : Nat) kind snap, (st.tasks ++ [(spawn st.shared .openStream).2])[i]? =
        some (.push (.numbered kind snap)) → st.tasks[i]? = some (.push (.numbered kind snap)) :=
      fun _ _ _ found => getElem?_append_other found nofun
    refine ⟨server, ok.acked, fun i kind snap found => ok.world i kind snap (old i kind snap found), ?_⟩
    intro i kind snap found j t other atJ
    rcases getElem?_append_one atJ with before | ⟨_, rfl⟩
    · exact ok.tasks i kind snap (old i kind snap found) j t other before
    · simp [spawn, Carries, AdsStream.opened, Phase.sending]
  | push kind =>
    have fresh := next_fresh ok.server.shared kind few
    have apart : ∀ {v}, v = (kind.snapshot (versionLabel (fetchAddOne st.shared.version))
        st.shared.upstreamIp).version → (∃ snap ∈ st.shared.issued, snap.version = v) → False := by
      rintro v rfl ⟨snap, issued, version⟩
      exact fresh snap issued version
    refine ⟨server, ?_, ?_, ?_⟩
    · intro v acked
      obtain ⟨snap, issued, version⟩ := ok.acked v acked
      exact ⟨snap, List.mem_append_left _ issued, version⟩
    · intro i kind' snap found shown
      rcases getElem?_append_one found with old | ⟨_, eq⟩
      · exact ok.world i kind' snap old shown
      · cases eq
        exact apart rfl (shown_issued ok shown)
    · intro i kind' snap found j t other atJ carries
      rcases getElem?_append_one found with old | ⟨last, eq⟩
      · rcases getElem?_append_one atJ with before | ⟨_, rfl⟩
        · exact ok.tasks i kind' snap old j t other before carries
        · -- the new push carries the version that it drew
          exact apart carries.symm ⟨snap, ok.server.task i _ old, rfl⟩
      · cases eq
        rcases getElem?_append_one atJ with before | ⟨lastJ, _⟩
        · exact apart rfl (carries_issued (ok.server.task j t before) carries)
        · exact other (lastJ.trans last.symm)

theorem unshown_next (ok : Unshown st) (acks : AcksSent st e)
    (few : st'.shared.issued.length ≤ 2 ^ 64) (h : server.next st e = some st') : Unshown st' := by
  have serverOk := server_ok_next ok.server h
  rcases next_cases h with ⟨call, rfl, rfl⟩ | ⟨i, a, t, w', t', rfl, found, moved, rfl⟩
  · exact unshown_spawn ok call few serverOk
  · have back : ∀ {v}, Shown v w' ∨ Carries v t' → Shown v st.shared ∨ Carries v t := fun after =>
      step_carries found acks moved after
    have notDrawn : ∀ kind snap, t' ≠ .push (.numbered kind snap) := by
      rintro kind snap rfl
      rcases task_step moved with ⟨p, p', _, eq, step⟩ | ⟨s, s', _, eq, _⟩
      · cases step <;> cases eq
      · cases eq
    have old : ∀ (k : Nat) kind snap, (st.tasks.set i t')[k]? = some (.push (.numbered kind snap)) →
        i ≠ k ∧ st.tasks[k]? = some (.push (.numbered kind snap)) := by
      intro k kind snap atK
      rcases getElem?_set_cases atK with ⟨_, eq⟩ | ⟨other, before⟩
      · exact absurd eq.symm (notDrawn kind snap)
      · exact ⟨other.symm, before⟩
    have unseen : ∀ (k : Nat) kind snap,
        (st.tasks.set i t')[k]? = some (.push (.numbered kind snap)) →
        ¬ (Shown snap.version w' ∨ Carries snap.version t') := by
      intro k kind snap atK after
      obtain ⟨other, before⟩ := old k kind snap atK
      exact (back after).elim (ok.world k kind snap before) (ok.tasks k kind snap before i t other found)
    refine ⟨serverOk, ?_, ?_, ?_⟩
    · intro v acked
      obtain ⟨snap, issued, version⟩ : ∃ snap ∈ st.shared.issued, snap.version = v :=
        (back (Or.inl (Or.inr (Or.inl acked)))).elim (shown_issued ok)
          (carries_issued (ok.server.task i t found))
      refine ⟨snap, evolves_mem ?_ issued, version⟩
      rcases task_step moved with ⟨_, _, _, _, step⟩ | ⟨_, _, _, _, step⟩
      · exact push_step_evolves step
      · exact stream_step_evolves step
    · exact fun k kind snap atK shown => unseen k kind snap atK (Or.inl shown)
    · intro k kind snap atK j u other atJ carries
      rcases getElem?_set_cases atJ with ⟨rfl, rfl⟩ | ⟨_, before⟩
      · exact unseen k kind snap atK (Or.inr carries)
      · exact ok.tasks k kind snap (old k kind snap atK).2 j u other before carries

theorem stores_accepted_iff (ok : Unshown st) : StoresAccepted st e ↔ NoStore st e := by
  constructor
  · intro stores i snap eq found
    rcases stores i snap eq found with first | acked
    · exact ok.world i .good snap found (Or.inl first)
    · exact ok.world i .good snap found (Or.inr (Or.inl acked))
  · exact fun noStore i snap eq found => absurd found (noStore i snap eq)

end Pushes

theorem start_unshown (ip : String) : Unshown (start ip) :=
  ⟨start_ok ip, nofun, nofun, nofun⟩

theorem along_few {st : State} {es : List Step}
    (few : st.shared.issued.length + es.countP IsPush ≤ 2 ^ 64) :
    Along server.next
      (fun st e => st.shared.issued.length + (if IsPush e then 1 else 0) ≤ 2 ^ 64) st es := by
  induction es generalizing st with
  | nil => trivial
  | cons e es ih =>
    intro st' first
    have count := issued_next first
    rw [List.countP_cons] at few
    exact ⟨by omega, ih (by omega)⟩

def NotStoring : ControlTask → Prop
  | .push (.numbered .good _) => False
  | _ => True

theorem not_storing_next {st st' : State} {e : Step} (before : ∀ t ∈ st.tasks, NotStoring t)
    (unmade : e ≠ .spawn (.push .good)) (h : server.next st e = some st') :
    ∀ t ∈ st'.tasks, NotStoring t := by
  rcases next_cases h with ⟨call, rfl, rfl⟩ | ⟨i, a, t, w', t', rfl, _, moved, rfl⟩
  · intro t member
    rcases List.mem_append.mp member with old | new
    · exact before t old
    · rw [List.mem_singleton.mp new]
      cases call with
      | openStream => trivial
      | push kind =>
        cases kind with
        | good => exact absurd rfl unmade
        | broken => trivial
  · intro u member
    rcases List.mem_or_eq_of_mem_set member with old | rfl
    · exact before u old
    · rcases task_step moved with ⟨p, p', _, rfl, step⟩ | ⟨s, s', _, rfl, _⟩
      · cases step <;> trivial
      · trivial

theorem no_store_of_no_push (ip : String) {es : List Step} (unmade : .spawn (.push .good) ∉ es) :
    Along server.next NoStore (start ip) es := by
  have events : Along server.next (fun _ e => e ≠ .spawn (.push .good)) (start ip) es :=
    along_of_mem fun e member eq => unmade (eq ▸ member)
  refine along_within (I := fun st => ∀ t ∈ st.tasks, NotStoring t)
    (fun _ _ _ before other h => not_storing_next before other h) ?_ events (by simp [start])
  intro st e st' before _ _ i snap _ found
  exact before _ (List.mem_of_getElem? found)

/-- The rollback target is accepted throughout a run in which no `push_good` gets as far
    as storing it, in particular if none is made. In a run of fewer than 2^64 pushes
    whose clients ACK only what they were sent, it is accepted in no other case. -/
theorem target_accepted_iff_no_store (ip : String) (es : List Step) :
    (.spawn (.push .good) ∉ es → Along server.next NoStore (start ip) es) ∧
    (Along server.next NoStore (start ip) es →
      Always server.next (TargetAccepted ip) (start ip) es) ∧
    (Along server.next AcksSent (start ip) es → es.countP IsPush < 2 ^ 64 →
      (Always server.next (TargetAccepted ip) (start ip) es ↔
        Along server.next NoStore (start ip) es)) := by
  refine ⟨no_store_of_no_push ip, fun noStore => ?_, ?_⟩
  · rw [target_accepted_iff_stores_accepted]
    refine along_within (I := fun _ => True) (fun _ _ _ _ _ _ => trivial) ?_ noStore trivial
    exact fun _ _ _ _ noStore _ i snap eq found => absurd found (noStore i snap eq)
  · intro acks few
    rw [target_accepted_iff_stores_accepted]
    have one : (start ip).shared.issued.length = 1 := rfl
    have counted := along_few (show (start ip).shared.issued.length + es.countP IsPush ≤ 2 ^ 64 by omega)
    refine along_congr_within (I := Unshown) ?_ ?_ (along_and acks counted) (start_unshown ip)
    · rintro st e st' ok ⟨acks, fewer⟩ h
      exact unshown_next ok acks (issued_next h ▸ fewer) h
    · exact fun _ _ _ ok _ _ => stores_accepted_iff ok

theorem broken_push_keeps_target :
    Always server.next (TargetAccepted "10.0.0.1") (start "10.0.0.1") (brokenPush ++ rejection) := by
  obtain ⟨unmade, kept, _⟩ := target_accepted_iff_no_store "10.0.0.1" (brokenPush ++ rejection)
  exact kept (unmade (by decide))

/-- A client runs v1 and rejects the pushed v2, the only answer it ever gives. -/
def rejectedPush : List Step :=
  [.spawn .openStream, .step 0 (.request ⟨tListener, "", "", none⟩), .step 0 .respond,
    .spawn (.push .good), .step 1 .proceed, .step 1 .proceed,
    .step 0 (.wake [tListener]), .step 0 .deliver, .step 0 .deliver,
    .step 0 (.request ⟨tListener, "v1", "lds-v2", some "rejected"⟩), .step 0 .rollback]

theorem rejected_push_is_rollback_target :
    (∃ st, exec server.next (start "10.0.0.1") rejectedPush = some st ∧
      st.shared.acked = [] ∧ st.shared.lastGood.version = "v2" ∧
      st.shared.advertised.value.version = "v2") ∧
    ¬ Always server.next (TargetAccepted "10.0.0.1") (start "10.0.0.1") rejectedPush := by
  have reached : ∃ st, exec server.next (start "10.0.0.1") rejectedPush = some st ∧
      st.shared.acked = [] ∧ st.shared.lastGood.version = "v2" ∧
      st.shared.advertised.value.version = "v2" := ⟨_, rfl, rfl, by decide, by decide⟩
  refine ⟨reached, fun all => ?_⟩
  obtain ⟨st, run, acked, lastGood, _⟩ := reached
  rcases (always_last all run).lastGood with first | member
  · rw [first] at lastGood
    exact absurd lastGood (by decide)
  · rw [acked] at member
    cases member


end SotwAcceptance
