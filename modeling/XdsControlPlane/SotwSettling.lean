import XdsControlPlane.SotwRollback

/-!
After the last push. With every push and NACK handler done, a run without
pushes can advertise two snapshots only: the one it began with and `last_good`,
in that order. Each stream passes them on in the same order, and `push_if_new`
sends either of them at most once per type, so rejections cannot feed resends.
-/
namespace SotwSettling
open ExecutableRuns SharedCells KeyedMaps EnvoyMessages SotwSnapshots SotwServer SotwConvergence
open SotwRollback

/-- Every push is done and every open stream waits in its `select!`. -/
def AtRest : ControlTask → Prop
  | .push p => p = .done
  | .stream s => s.phase = .select ∨ s.phase = .closed

def Waiting (st : State) : Prop := ∀ t ∈ st.tasks, AtRest t

def Outbox.count (o : Outbox) (typeUrl : String) : Nat :=
  o.responses.countP fun r => r.typeUrl = typeUrl

def sentBy (st : State) (i : Nat) (typeUrl : String) : Nat :=
  match st.tasks[i]? with
  | some (.stream s) => Outbox.count s.outbox typeUrl
  | _ => 0

/- The two snapshots left -/

structure WorldSettling (first good : Snapshot) (w : World) : Prop where
  lastGood : w.lastGood = good
  advertised : w.advertised.value = first ∨ w.advertised.value = good

/-- `early`: as long as the stream may still send `first`, it has sent nothing
    else, so at most one response of each type; `late` adds one for `good`. -/
structure StreamSettling (first good : Snapshot) (base : String → Nat) (w : World)
    (s : AdsStream) : Prop where
  nacking : ∀ snap, s.phase = .nacking snap → snap = good
  sending : ∀ snap, s.phase.sending = some snap →
    snap = first ∨ (snap = good ∧ w.advertised.value = good)
  early : ∀ typeUrl, w.advertised.value = first ∨ s.phase.sending = some first →
    Outbox.count s.outbox typeUrl ≤ base typeUrl + 1 ∧
      (Outbox.count s.outbox typeUrl = base typeUrl + 1 →
        s.outbox.sentVersion.lookup typeUrl = some first.version)
  late : ∀ typeUrl, Outbox.count s.outbox typeUrl ≤ base typeUrl + 2 ∧
    (Outbox.count s.outbox typeUrl = base typeUrl + 2 →
      s.outbox.sentVersion.lookup typeUrl = some good.version)

def TaskSettling (first good : Snapshot) (base : String → Nat) (w : World) : ControlTask → Prop
  | .push p => p = .done
  | .stream s => StreamSettling first good base w s

/-- One `push_if_new` leaves a type as it was, or adds one response to it; then
    the version was not the last one sent, and now it is. -/
theorem push_if_new_count (sent : String) (snap : Snapshot) (o : Outbox) (typeUrl : String) :
    (Outbox.count (pushIfNew sent snap o) typeUrl = Outbox.count o typeUrl ∧
      (pushIfNew sent snap o).sentVersion.lookup typeUrl = o.sentVersion.lookup typeUrl) ∨
    (o.sentVersion.lookup typeUrl ≠ some snap.version ∧
      Outbox.count (pushIfNew sent snap o) typeUrl = Outbox.count o typeUrl + 1 ∧
      (pushIfNew sent snap o).sentVersion.lookup typeUrl = some snap.version) := by
  rcases push_if_new_cases sent snap o with ⟨same, _⟩ | ⟨resp, built, moved, eq⟩
  · exact Or.inl (by rw [same]; exact ⟨rfl, rfl⟩)
  · have named := (build_response_fields built).1
    rw [eq]
    by_cases same : typeUrl = sent
    · subst same
      refine Or.inr ⟨moved, ?_, ?_⟩
      · simp [Outbox.count, named]
      · rw [lookup_insert, if_pos rfl]
    · have other : ¬ sent = typeUrl := fun eq => same eq.symm
      refine Or.inl ⟨?_, ?_⟩
      · simp [Outbox.count, named, other]
      · rw [lookup_insert, if_neg same]

variable {first good : Snapshot} {base : String → Nat}

theorem settling_phase {w : World} {s s' : AdsStream} (world : WorldSettling first good w)
    (ok : StreamSettling first good base w s) (sameOutbox : s'.outbox = s.outbox)
    (nacking : ∀ snap, s'.phase = .nacking snap → snap = good)
    (sending : ∀ snap, s'.phase.sending = some snap →
      snap = w.advertised.value ∨ s.phase.sending = some snap) :
    StreamSettling first good base w s' := by
  constructor
  case nacking => exact nacking
  case sending =>
    intro snap h
    rcases sending snap h with rfl | before
    · exact world.advertised.imp_right fun isGood => ⟨isGood, isGood⟩
    · exact ok.sending snap before
  case early =>
    intro typeUrl h
    rw [sameOutbox]
    refine ok.early typeUrl (h.elim Or.inl fun taken => ?_)
    exact (sending first taken).imp_left Eq.symm
  case late =>
    intro typeUrl
    rw [sameOutbox]
    exact ok.late typeUrl

theorem settling_send {w : World} {s : AdsStream} (ok : StreamSettling first good base w s)
    {typeUrl : String} {snap : Snapshot} {next : Phase} (pays : Pays s.phase next typeUrl snap) :
    StreamSettling first good base w
      { s with outbox := pushIfNew typeUrl snap s.outbox, phase := next } := by
  have isFirst : w.advertised.value = first ∨ next.sending = some first → snap = first := by
    rintro (advertised | taken)
    · rcases ok.sending snap pays.sending with isFirst | ⟨isGood, isAdvertised⟩
      · exact isFirst
      · rw [isGood, ← isAdvertised, advertised]
    · exact (pays.nextSending first taken).symm
  constructor
  case nacking => exact fun snap' h => absurd h (pays.notNacking snap')
  case sending =>
    intro snap' h
    rw [pays.nextSending snap' h]
    exact ok.sending snap pays.sending
  case early =>
    intro other h
    have early := ok.early other (Or.inr (isFirst h ▸ pays.sending))
    rcases push_if_new_count typeUrl snap s.outbox other with ⟨same, sameLast⟩ | ⟨moved, more, last⟩
    · simp only [same, sameLast]
      exact early
    · have below : Outbox.count s.outbox other ≠ base other + 1 := fun eq =>
        moved (isFirst h ▸ early.2 eq)
      simp only [more, last]
      exact ⟨by omega, fun _ => by rw [isFirst h]⟩
  case late =>
    intro other
    have late := ok.late other
    rcases push_if_new_count typeUrl snap s.outbox other with ⟨same, sameLast⟩ | ⟨moved, more, last⟩
    · simp only [same, sameLast]
      exact late
    · rcases ok.sending snap pays.sending with isFirst | ⟨isGood, _⟩
      · have early := ok.early other (Or.inr (isFirst ▸ pays.sending))
        have below : Outbox.count s.outbox other ≠ base other + 1 := fun eq =>
          moved (isFirst ▸ early.2 eq)
        simp only [more]
        exact ⟨by omega, fun eq => by omega⟩
      · have below : Outbox.count s.outbox other ≠ base other + 2 := fun eq =>
          moved (isGood ▸ late.2 eq)
        simp only [more, last]
        exact ⟨by omega, fun _ => by rw [isGood]⟩

theorem settling_world {w w' : World} {s : AdsStream} (world : WorldSettling first good w)
    (ok : StreamSettling first good base w s)
    (moved : w'.advertised.value = w.advertised.value ∨ w'.advertised.value = good) :
    StreamSettling first good base w' s := by
  rcases moved with same | isGood
  · exact ⟨ok.nacking, by rw [same]; exact ok.sending, by rw [same]; exact ok.early, ok.late⟩
  · constructor
    case nacking => exact ok.nacking
    case sending =>
      intro snap h
      exact (ok.sending snap h).imp_right fun both => ⟨both.1, isGood⟩
    case early =>
      intro typeUrl h
      refine ok.early typeUrl (h.imp_left fun isFirst => ?_)
      rw [isGood] at isFirst
      rcases world.advertised with before | before
      · exact before
      · rw [before, isFirst]
    case late => exact ok.late

theorem stream_step_settling {w w' : World} {s s' : AdsStream} {a : Act}
    (world : WorldSettling first good w) (ok : StreamSettling first good base w s)
    (h : StreamStep w s a w' s') : StreamSettling first good base w s' := by
  cases h with
  | nack r phase isNack =>
    refine settling_phase world ok rfl (fun snap h => ?_) (by simp [AdsStream.taking, Phase.sending])
    cases h
    exact world.lastGood
  | subscribe r phase isSubscribe =>
    exact settling_phase world ok rfl (by simp [AdsStream.taking]) (by simp [AdsStream.taking, Phase.sending, eq_comm])
  | ack r phase notNack answers =>
    exact settling_phase world ok rfl (by simp [AdsStream.taking]) (by simp [AdsStream.taking, Phase.sending])
  | respond typeUrl snap phase => exact settling_send ok (respond_pays phase)
  | rollback snap phase => exact settling_phase world ok rfl (by simp) (by simp [Phase.sending])
  | wake order phase behind visits =>
    exact settling_phase world ok rfl (by simp) (by simp [Phase.sending, eq_comm])
  | deliver snap typeUrl todo phase => exact settling_send ok (deliver_pays phase)
  | finish snap phase => exact settling_phase world ok rfl (by simp) (by simp [Phase.sending])
  | close notNacking => exact settling_phase world ok rfl (by simp) (by simp [Phase.sending])

theorem stream_step_advertised {w w' : World} {s s' : AdsStream} {a : Act}
    (ok : StreamSettling first good base w s) (h : StreamStep w s a w' s') :
    w'.advertised.value = w.advertised.value ∨ w'.advertised.value = good := by
  cases h with
  | rollback snap phase => exact Or.inr (ok.nacking snap phase)
  | _ => exact Or.inl rfl

abbrev Settling (first good : Snapshot) (base : Nat → String → Nat) : State → Prop :=
  Holds (WorldSettling first good) fun i => TaskSettling first good (base i)

theorem only_opens {es : List Step} (noPush : ∀ e ∈ es, ¬ IsPush e) (c : Call)
    (called : .spawn c ∈ es) : c = .openStream := by
  cases c with
  | push kind => exact absurd rfl (noPush _ called)
  | openStream => rfl

theorem settling_exec {base : Nat → String → Nat} {st st' : State} {es : List Step}
    (noPush : ∀ e ∈ es, ¬ IsPush e) (run : exec server.next st es = some st')
    (before : Settling first good base st) : Settling first good base st' := by
  refine holds_exec (p := server) (fun i w c opens world => ?_) (fun i w c t opens _ ok => ?_) ?_ ?_
    (only_opens noPush) run before
  · subst opens
    exact ⟨world, nofun, nofun, fun _ _ => ⟨Nat.zero_le _, nofun⟩, fun _ => ⟨Nat.zero_le _, nofun⟩⟩
  · subst opens
    exact ok
  · intro i w t a w' t' world ok moved
    rcases task_step moved with ⟨p, p', rfl, rfl, step⟩ | ⟨s, s', rfl, rfl, step⟩
    · cases (show p = .done from ok); cases step
    · have advertised := stream_step_advertised ok step
      refine ⟨⟨(stream_step_frame step).1.trans world.lastGood, ?_⟩,
        settling_world world (stream_step_settling world ok step) advertised⟩
      exact advertised.elim (fun same => same ▸ world.advertised) Or.inr
  · intro i j w t a w' t' u world ok okU moved
    rcases task_step moved with ⟨p, p', rfl, rfl, step⟩ | ⟨s, s', rfl, rfl, step⟩
    · cases (show p = .done from ok); cases step
    · cases u with
      | push q => exact okU
      | stream u => exact settling_world world okU (stream_step_advertised ok step)

theorem waiting_settling {st : State} (waiting : Waiting st) :
    Settling st.shared.advertised.value st.shared.lastGood (sentBy st) st := by
  refine ⟨⟨rfl, Or.inl rfl⟩, fun i t found => ?_⟩
  have rest := waiting t (List.mem_of_getElem? found)
  cases t with
  | push p => exact rest
  | stream s =>
    have count : ∀ typeUrl, sentBy st i typeUrl = Outbox.count s.outbox typeUrl := fun typeUrl => by
      simp only [sentBy, found]
    constructor
    case nacking =>
      intro snap h
      rcases rest with select | closed
      · cases select.symm.trans h
      · cases closed.symm.trans h
    case sending =>
      intro snap h
      rcases rest with select | closed
      · simp [select, Phase.sending] at h
      · simp [closed, Phase.sending] at h
    case early =>
      intro typeUrl _
      rw [count]
      exact ⟨by omega, fun eq => by omega⟩
    case late =>
      intro typeUrl
      rw [count]
      exact ⟨by omega, fun eq => by omega⟩

/- Once a handler has rolled back -/

def HandsGood (good : Snapshot) : ControlTask → Prop
  | .push p => p = .done
  | .stream s => ∀ snap, s.phase = .nacking snap → snap = good

abbrev RolledBack (good : Snapshot) : State → Prop :=
  Holds (fun w => w.lastGood = good ∧ w.advertised.value = good) fun _ _ => HandsGood good

theorem rolled_back_exec {st st' : State} {es : List Step} (noPush : ∀ e ∈ es, ¬ IsPush e)
    (run : exec server.next st es = some st') (before : RolledBack good st) :
    RolledBack good st' := by
  refine holds_exec (p := server) (fun i w c opens world => ?_) (fun _ _ _ _ _ _ ok => ok) ?_
    (fun _ _ _ _ _ _ _ _ _ _ okU _ => okU)
    (only_opens noPush) run before
  · subst opens
    exact ⟨world, nofun⟩
  · intro i w t a w' t' world ok moved
    rcases task_step moved with ⟨p, p', rfl, rfl, step⟩ | ⟨s, s', rfl, rfl, step⟩
    · cases (show p = .done from ok); cases step
    · refine ⟨⟨(stream_step_frame step).1.trans world.1, ?_⟩, fun snap nacking =>
        (stream_step_nacking step nacking).trans world.1⟩
      cases step with
      | rollback snap phase => exact ok snap phase
      | _ => exact world.2

theorem rollback_rolls_back {base : Nat → String → Nat} {st st' : State} {i : Nat}
    (before : Settling first good base st) (h : server.next st (.step i .rollback) = some st') :
    RolledBack good st' := by
  rcases next_cases h with ⟨c, eq, _⟩ | ⟨j, a, t, w', t', eq, found, moved, rfl⟩
  · cases eq
  · cases eq
    have own := before.task _ t found
    rcases task_step moved with ⟨p, p', rfl, rfl, step⟩ | ⟨s, s', rfl, rfl, step⟩
    · cases moved
    · cases step with
      | rollback snap phase =>
        refine ⟨⟨before.shared.lastGood, own.nacking snap phase⟩, fun k u atK => ?_⟩
        rcases getElem?_set_cases atK with ⟨_, rfl⟩ | ⟨_, old⟩
        · exact nofun
        · have okU := before.task k u old
          cases u with
          | push q => exact okU
          | stream u => exact okU.nacking

theorem advertised_after_rollback {st st' : State} {es : List Step} (waiting : Waiting st)
    (noPush : ∀ e ∈ es, ¬ IsPush e) (run : exec server.next st es = some st') {i : Nat}
    (rolledBack : .step i .rollback ∈ es) :
    st'.shared.advertised.value = st'.shared.lastGood := by
  obtain ⟨pre, post, rfl⟩ := List.append_of_mem rolledBack
  obtain ⟨mid, toMid, fromMid⟩ := exec_append_some.mp run
  obtain ⟨mid', handled, rest⟩ := exec_cons_some.mp fromMid
  have noPushPre : ∀ e ∈ pre, ¬ IsPush e := fun e h => noPush e (List.mem_append_left _ h)
  have noPushPost : ∀ e ∈ post, ¬ IsPush e := fun e h =>
    noPush e (List.mem_append_right _ (List.mem_cons_of_mem _ h))
  have reached := rollback_rolls_back
    (settling_exec noPushPre toMid (waiting_settling waiting)) handled
  have last := (rolled_back_exec noPushPost rest reached).shared
  rw [last.1, last.2]

theorem sent_at_most_two {st st' : State} {es : List Step} (waiting : Waiting st)
    (noPush : ∀ e ∈ es, ¬ IsPush e) (run : exec server.next st es = some st') (i : Nat)
    (typeUrl : String) : sentBy st' i typeUrl ≤ sentBy st i typeUrl + 2 := by
  have settled := settling_exec noPush run (waiting_settling waiting)
  unfold sentBy
  split
  · rename_i s found
    exact ((settled.task i _ found).late typeUrl).1
  · exact Nat.zero_le _

/-- After the last push: from the first finished NACK handler on, `last_good` is
    advertised and every stream that has caught up has last sent `last_good`'s
    responses; and no stream ever sends more than two responses of a type,
    whatever is requested, acknowledged or rejected. -/
theorem rollbacks_settle {ip : String} {st st' : State} {es fs : List Step}
    (run : exec server.next (start ip) es = some st) (few : es.countP IsPush < 2 ^ 64)
    (waiting : Waiting st) (more : exec server.next st fs = some st')
    (noPush : ∀ e ∈ fs, ¬ IsPush e) :
    (∀ i, .step i .rollback ∈ fs →
      st'.shared.advertised.value = st'.shared.lastGood ∧
      ∀ (j : Nat) s, st'.tasks[j]? = some (.stream s) → s.phase = .select →
        s.receiver.UpToDate st'.shared.advertised → ∀ typeUrl resp, s.Asked typeUrl →
          st'.shared.lastGood.buildResponse typeUrl = some resp →
          s.outbox.last typeUrl = some resp) ∧
    ∀ i typeUrl, sentBy st' i typeUrl ≤ sentBy st i typeUrl + 2 := by
  refine ⟨fun i rolledBack => ?_, sent_at_most_two waiting noPush more⟩
  have isGood := advertised_after_rollback waiting noPush more rolledBack
  refine ⟨isGood, fun j s found idle latest typeUrl resp asked held => ?_⟩
  have whole : exec server.next (start ip) (es ++ fs) = some st' :=
    exec_append_some.mpr ⟨st, run, more⟩
  have fewWhole : (es ++ fs).countP IsPush < 2 ^ 64 := by
    rw [List.countP_append, List.countP_eq_zero.mpr noPush]
    omega
  exact idle_stream_current whole fewWhole found idle latest asked (isGood ▸ held)

theorem rollbacks_settle_after_broken_push :
    ∃ st st', exec server.next (start "10.0.0.1") brokenPush = some st ∧
      exec server.next st rejection = some st' ∧
      st'.shared.advertised.value = st'.shared.lastGood ∧
      sentBy st' 0 tListener ≤ sentBy st 0 tListener + 2 := by
  obtain ⟨st, run, waiting⟩ :
      ∃ st, exec server.next (start "10.0.0.1") brokenPush = some st ∧ Waiting st := by
    refine ⟨_, rfl, fun t member => ?_⟩
    rcases List.mem_cons.mp member with rfl | member
    · exact Or.inl rfl
    · rcases List.mem_singleton.mp member with rfl
      rfl
  obtain ⟨st', more⟩ : ∃ st', (exec server.next (start "10.0.0.1") brokenPush).bind
      (fun st => exec server.next st rejection) = some st' := ⟨_, rfl⟩
  rw [run] at more
  have settled := rollbacks_settle run (by decide) waiting more (by decide)
  exact ⟨st, st', run, more, (settled.1 0 (by decide)).1, settled.2 0 tListener⟩

end SotwSettling
