import XdsControlPlane.VersionedPushes
import XdsControlPlane.SotwConvergence

/-!
Chapter 2, the streams as readers of what is published, pushes and rollbacks alike.
While it handles a NACK a stream is away: it is about to publish itself. What is
sent of a type goes through the publications in order and never twice from one of
them, so a type is sent no more often than something was published.
-/
namespace SotwStreams
open ExecutableRuns SharedCells KeyedMaps EnvoyMessages WatchReaders VersionedPushes SotwSnapshots
  SotwServer SotwConvergence

/- Responses -/

def rendering : Rendering String Snapshot String DiscoveryResponse where
  version := Snapshot.version
  respond typeUrl snap := snap.buildResponse typeUrl
  key := DiscoveryResponse.typeUrl
  label := DiscoveryResponse.versionInfo
  respond_key _ _ _ built := (build_response_fields built).1
  respond_label _ _ _ built := (build_response_fields built).2.1

def outboxOf (o : SotwServer.Outbox) : VersionedPushes.Outbox String String DiscoveryResponse :=
  ⟨o.sentVersion, o.responses⟩

theorem outbox_push (typeUrl : String) (snap : Snapshot) (o : SotwServer.Outbox) :
    outboxOf (pushIfNew typeUrl snap o) = rendering.pushIfNew typeUrl snap (outboxOf o) := by
  have respond : rendering.respond typeUrl snap = snap.buildResponse typeUrl := rfl
  have version : rendering.version snap = snap.version := rfl
  simp only [pushIfNew, Rendering.pushIfNew, outboxOf, respond, version]
  split
  · rfl
  · cases snap.buildResponse typeUrl <;> rfl

/-- `places` gives each response the place in `published` that it was rendered from;
    the places never go back, and of one type each is later than the last. -/
structure InHistory (published : List Snapshot) (responses : List DiscoveryResponse)
    (places : List (DiscoveryResponse × Nat)) : Prop where
  responses : places.map Prod.fst = responses
  rendered : ∀ x ∈ places, ∃ snap, published[x.2]? = some snap ∧
    snap.buildResponse x.1.typeUrl = some x.1
  forward : places.Pairwise fun later earlier => earlier.2 ≤ later.2 ∧
    (later.1.typeUrl = earlier.1.typeUrl → earlier.2 < later.2)

theorem in_history {published : List Snapshot} {responses : List DiscoveryResponse} {n : Nat}
    {places : List (DiscoveryResponse × Nat)}
    (follows : Follows rendering.channel published responses n places) :
    InHistory published responses places := by
  obtain ⟨sent, rendered, forward⟩ := follows_rendered follows
  exact ⟨sent, rendered, forward⟩

/- The streams as readers -/

def stageOf : Phase → Stage String Snapshot
  | .select => .idle
  | .subscribing typeUrl snap => .answering typeUrl snap
  | .nacking _ => .away
  | .watching snap todo => .visiting snap todo
  | .closed => .closed

def readerOf (s : AdsStream) :
    Reader String Snapshot (VersionedPushes.Outbox String String DiscoveryResponse) :=
  ⟨s.receiver, s.subscribed.elems, stageOf s.phase, outboxOf s.outbox⟩

/-- The steps that the loop takes by itself, once it has something to do. -/
def ownAct : Act → Bool
  | .respond => true
  | .wake _ => true
  | .deliver => true
  | _ => false

theorem insert_subset (s : HashSet String) (t : String) : s.elems ⊆ (s.insert t).elems :=
  fun _ member => List.mem_insert_of_mem member

abbrev StreamEffect (w : World) (s : AdsStream) (a : Act) (w' : World) (s' : AdsStream) : Prop :=
  Effect rendering.channel w.advertised (some (readerOf s)) (ownAct a) w'.advertised
    (some (readerOf s'))

theorem taking_effect {w w' : World} {s : AdsStream} (r : DiscoveryRequest) (phase : s.phase = .select)
    {next : Phase} (rests : stageOf next = .idle ∨ stageOf next = .away)
    (same : w'.advertised = w.advertised) :
    StreamEffect w s (.request r) w' (s.taking r next) := by
  rw [StreamEffect, same]
  apply Effect.read
  exact .note (s.subscribed.insert r.typeUrl).elems (outboxOf s.outbox) (stageOf next)
    (congrArg stageOf phase) rests (insert_subset s.subscribed r.typeUrl) rfl id

theorem stream_effect {w w' : World} {s s' : AdsStream} {a : Act} (step : StreamStep w s a w' s') :
    StreamEffect w s a w' s' := by
  cases step with
  | nack r phase isNack => exact taking_effect r phase (Or.inr rfl) rfl
  | subscribe r phase isSubscribe =>
    apply Effect.read
    exact .ask r.typeUrl _ _ (congrArg stageOf phase) (mem_insert.mpr (Or.inl rfl))
      (insert_subset s.subscribed r.typeUrl) rfl id
  | ack r phase notNack answers => exact taking_effect r phase (Or.inl rfl) rfl
  | respond typeUrl snap phase =>
    have moved := ReaderStep.answer (c := rendering.channel) (w := w.advertised) (r := readerOf s)
      typeUrl snap (congrArg stageOf phase)
    apply Effect.read
    unfold readerOf
    rw [outbox_push]
    exact moved
  | rollback good phase => exact .publish (readerOf s) good (congrArg stageOf phase)
  | wake order phase behind visits =>
    apply Effect.read
    exact .wake order (congrArg stageOf phase) behind visits
  | deliver snap typeUrl todo phase =>
    have moved := ReaderStep.visit (c := rendering.channel) (w := w.advertised) (r := readerOf s)
      typeUrl snap todo (congrArg stageOf phase)
    apply Effect.read
    unfold readerOf
    rw [outbox_push]
    exact moved
  | finish snap phase =>
    apply Effect.read
    exact .finish snap (congrArg stageOf phase)
  | close notNacking =>
    apply Effect.read
    exact .close _

def streamOf : ControlTask → Option AdsStream
  | .push _ => none
  | .stream s => some s

theorem stream_iff (t : ControlTask) (s : AdsStream) : streamOf t = some s ↔ t = .stream s := by
  cases t <;> simp [streamOf]

theorem stream_moves {w : World} {s : AdsStream} (due : (readerOf s).Due w.advertised) :
    ∃ a s', ownAct a ∧ stepStream w s s.phase a = some (w, s') := by
  obtain ⟨receiver, subscribed, outbox, phase, received⟩ := s
  cases phase with
  | select => exact ⟨.wake subscribed.elems, _, rfl, if_pos ⟨due, List.Perm.refl _⟩⟩
  | subscribing typeUrl snap => exact ⟨.respond, _, rfl, rfl⟩
  | nacking good => exact due.elim
  | watching snap todo =>
    cases todo with
    | nil => exact ⟨.deliver, _, rfl, rfl⟩
    | cons typeUrl todo => exact ⟨.deliver, _, rfl, rfl⟩
  | closed => exact due.elim

def streams : Readers server rendering.channel where
  watch w := w.advertised
  reader t := (streamOf t).map readerOf
  own := ownAct
  spawned w call := by
    cases call with
    | push kind => exact ⟨rfl, by simp [server, spawn, streamOf]⟩
    | openStream =>
      refine ⟨rfl, ?_⟩
      rintro r ⟨⟩
      exact ⟨rfl, rfl, rfl, fun _ => rfl⟩
  stepped w t a w' t' step := by
    rcases task_step step with ⟨q, q', rfl, rfl, moved⟩ | ⟨s, s', rfl, rfl, moved⟩
    · cases moved with
      | store snap => exact .other _ _ (Or.inl rfl)
      | publishBroken snap => exact .other _ _ (Or.inr ⟨snap, rfl⟩)
      | publishGood snap => exact .other _ _ (Or.inr ⟨snap, rfl⟩)
    · exact stream_effect moved
  enabled := by
    refine enabled_of_due ControlTask.stream stream_iff ?_
    intro w s due
    obtain ⟨a, s', own, moved⟩ := stream_moves due
    exact ⟨a, s', own, by simp [server, stepTask, moved]⟩

def sessions : Streams streams AdsStream where
  task := .stream
  streamOf := streamOf
  read := readerOf
  reads _ := rfl
  stream_iff := stream_iff

/-- Every snapshot that was ever advertised, pushed or rolled back to, in order. -/
def history (ip : String) (es : List Step) : List Snapshot := streams.history (start ip) es

/- How much is published -/

def IsRollback : Step → Bool
  | .step _ .rollback => true
  | _ => false

def Pending : ControlTask → Bool
  | .push .done => false
  | .push _ => true
  | .stream _ => false

theorem publications_next {st st' : State} {e : Step} (h : server.next st e = some st') :
    st'.shared.advertised.stamp + st'.tasks.countP Pending =
      st.shared.advertised.stamp + st.tasks.countP Pending + (if IsPush e then 1 else 0) +
        if IsRollback e then 1 else 0 := by
  rcases next_cases h with ⟨call, rfl, rfl⟩ | ⟨i, a, t, w, t', rfl, found, moved, rfl⟩
  · cases call with
    | push kind => simp [server, spawn, nextVersion, Pending, IsPush, IsRollback, Nat.add_assoc]
    | openStream => simp [server, spawn, Pending, IsPush, IsRollback]
  · have count : (st.tasks.set i t').countP Pending + _ = _ := countP_set found
    have step : stepTask st.shared t a = some (w, t') := moved
    rcases task_step step with ⟨q, q', rfl, rfl, moves⟩ | ⟨s, s', rfl, rfl, moves⟩
    · have act : a = .proceed := by
        cases a <;> simp [stepTask] at step ⊢
      subst act
      cases moves <;> simp [Pending, Watch.send, IsPush, IsRollback] at count ⊢ <;> omega
    · cases moves <;> simp [Pending, Watch.send, IsPush, IsRollback] at count ⊢ <;> omega

theorem publications_run {st st' : State} {es : List Step}
    (run : exec server.next st es = some st') :
    st'.shared.advertised.stamp + st'.tasks.countP Pending =
      st.shared.advertised.stamp + st.tasks.countP Pending + es.countP IsPush +
        es.countP IsRollback := by
  induction es generalizing st with
  | nil =>
    cases Option.some.inj run
    rfl
  | cons e es ih =>
    obtain ⟨mid, first, rest⟩ := exec_cons_some.mp run
    have one := publications_next first
    have later := ih rest
    rw [List.countP_cons, List.countP_cons]
    omega

theorem history_length {ip : String} {st : State} {es : List Step}
    (run : exec server.next (start ip) es = some st) :
    (history ip es).length ≤ 1 + es.countP IsPush + es.countP IsRollback := by
  have length : (history ip es).length + 0 = st.shared.advertised.stamp + 1 :=
    WatchReaders.history_length run
  have count : st.shared.advertised.stamp + st.tasks.countP Pending =
      0 + 0 + es.countP IsPush + es.countP IsRollback := publications_run run
  omega

/- Whole runs -/

section Runs
variable {ip : String} {es : List Step} {st : State} {i : Nat} {s : AdsStream}

/-- In every interleaving of pushes, of requests and of rollbacks on any number of
    streams: what a stream has sent follows the snapshots in the order in which they
    were advertised, and for each type it has sent no more than one response for the
    first snapshot, one for each push and one for each NACK handled, on whichever
    stream. -/
theorem responses_follow_publications (run : exec server.next (start ip) es = some st)
    (found : st.tasks[i]? = some (.stream s)) :
    (∃ places, InHistory (history ip es) s.outbox.responses places) ∧
    ∀ typeUrl, (s.outbox.responses.countP fun r => r.typeUrl = typeUrl) ≤
      1 + es.countP IsPush + es.countP IsRollback := by
  have inOrder : InOrder rendering.channel (history ip es) (readerOf s) :=
    sent_in_order (by simp [start]) run found rfl
  obtain ⟨n, places, follows, _⟩ := inOrder.sent
  exact ⟨⟨places, in_history follows⟩,
    fun typeUrl => Nat.le_trans (responses_count inOrder typeUrl) (history_length run)⟩

theorem responses_follow_rejection :
    ∃ st s, exec server.next (start "10.0.0.1") (brokenPush ++ rejection) = some st ∧
      st.tasks[0]? = some (.stream s) ∧
      (s.outbox.responses.countP fun r => r.typeUrl = tListener) ≤ 1 + 1 + 1 := by
  obtain ⟨st, s, run, found⟩ :
      ∃ st s, exec server.next (start "10.0.0.1") (brokenPush ++ rejection) = some st ∧
        st.tasks[0]? = some (.stream s) := ⟨_, _, rfl, rfl⟩
  exact ⟨st, s, run, found, (responses_follow_publications run found).2 tListener⟩

/- Catching up -/

/-- The steps of its own after which a stream waits with the latest snapshot seen: the
    sends of the arm it is in, and of the watch arm if a change is pending. -/
def stepsLeft (w : World) (s : AdsStream) : Nat :=
  (match s.phase with
    | .subscribing _ _ => 1
    | .watching _ todo => todo.length + 1
    | _ => 0) +
  if s.receiver.seen = w.advertised.stamp then 0 else s.subscribed.elems.length + 2

theorem steps_left (w : World) (s : AdsStream) :
    (readerOf s).remaining w.advertised = stepsLeft w s := by
  unfold Reader.remaining stepsLeft readerOf
  cases s.phase <;> rfl

/-- The stream waits with the latest snapshot seen, and has sent it last for every type
    that it was asked for. -/
def UpToDate (i : Nat) (st : State) : Prop :=
  ∃ s, st.tasks[i]? = some (.stream s) ∧ s.phase = .select ∧
    s.receiver.UpToDate st.shared.advertised ∧ ∀ typeUrl resp, s.Asked typeUrl →
      st.shared.advertised.value.buildResponse typeUrl = some resp →
      s.outbox.last typeUrl = some resp

theorem stage_idle {s : AdsStream} : (readerOf s).stage = .idle ↔ s.phase = .select := by
  cases phase : s.phase <;> simp [readerOf, stageOf, phase]

theorem caught_up_current (run : exec server.next (start ip) es = some st)
    (few : es.countP IsPush < 2 ^ 64) : streams.CaughtUp i st ↔ UpToDate i st := by
  rw [caught_up_at sessions]
  constructor
  · rintro ⟨s, found, idle, seen⟩
    have phase := stage_idle.mp idle
    exact ⟨s, found, phase, seen, fun typeUrl resp asked held =>
      idle_stream_current run few found phase seen asked held⟩
  · rintro ⟨s, found, phase, seen, _⟩
    exact ⟨s, found, stage_idle.mpr phase, seen⟩

theorem stream_left (found : st.tasks[i]? = some (.stream s)) (isOpen : s.phase ≠ .closed)
    (home : ∀ good, s.phase ≠ .nacking good) :
    streams.Left i (stepsLeft st.shared s) st := by
  rw [← steps_left]
  apply left_at sessions found
  · cases phase : s.phase <;> simp_all [sessions, readerOf, stageOf]
  · cases phase : s.phase <;> simp_all [sessions, readerOf, stageOf]

/-- While nothing is published, an open stream to which nothing new is said takes at most
    `stepsLeft` steps, whatever the others do in between; when it has taken them it has
    sent what is advertised last, be it a push or a rollback; and it can always take
    them. -/
theorem publication_reaches_stream (run : exec server.next (start ip) es = some st)
    (few : es.countP IsPush < 2 ^ 64) (found : st.tasks[i]? = some (.stream s))
    (isOpen : s.phase ≠ .closed) (home : ∀ good, s.phase ≠ .nacking good) :
    (∀ fs st', exec server.next st fs = some st' →
      st'.shared.advertised.stamp = st.shared.advertised.stamp →
      (es ++ fs).countP IsPush < 2 ^ 64 → (∀ a, .step i a ∈ fs → ownAct a) →
      fs.countP (streams.owns i) ≤ stepsLeft st.shared s ∧
        (fs.countP (streams.owns i) = stepsLeft st.shared s ↔ UpToDate i st')) ∧
    ∃ (acts : List Act) (st' : State), acts.length = stepsLeft st.shared s ∧
      exec server.next st (acts.map (.step i)) = some st' ∧ UpToDate i st' := by
  have reached := reaches_current (stream_left found isOpen home)
    (fun fs st' => st'.shared.advertised.stamp = st.shared.advertised.stamp ∧
      (es ++ fs).countP IsPush < 2 ^ 64) (fun _ => UpToDate i) ?_ ?_ ?_
  · exact ⟨fun fs st' more still fewer own => reached.1 fs st' more ⟨still, fewer⟩ own, reached.2⟩
  · exact fun fs st' _ quiet => quiet.1
  · -- its own steps are no pushes
    intro acts st' _ same
    refine ⟨congrArg Watch.stamp same, ?_⟩
    have noPush : (acts.map (Event.step (A := Call) i)).countP IsPush = 0 := by
      rw [List.countP_eq_zero]
      intro e member
      obtain ⟨a, _, rfl⟩ := List.mem_map.mp member
      simp [IsPush]
    rw [List.countP_append, noPush]
    exact few
  · rintro fs st' more _ ⟨_, fewer⟩
    exact caught_up_current (exec_append_some.mpr ⟨st, run, more⟩) fewer

/-- The stream of the demo after its rejection was rolled back: it wakes, sends v1 again
    and is done. -/
theorem rollback_reaches_stream :
    ∃ st s, exec server.next (start "10.0.0.1") (brokenPush ++ rejection.take 2) = some st ∧
      st.tasks[0]? = some (.stream s) ∧ stepsLeft st.shared s = 3 ∧
      ∃ (acts : List Act) (st' : State), acts.length = stepsLeft st.shared s ∧
        exec server.next st (acts.map (.step 0)) = some st' ∧ UpToDate 0 st' := by
  obtain ⟨st, s, run, found, phase, left⟩ :
      ∃ st s, exec server.next (start "10.0.0.1") (brokenPush ++ rejection.take 2) = some st ∧
        st.tasks[0]? = some (.stream s) ∧ s.phase = .select ∧ stepsLeft st.shared s = 3 :=
    ⟨_, _, rfl, rfl, rfl, by decide⟩
  exact ⟨st, s, run, found, left, (publication_reaches_stream run (by decide) found
    (by simp [phase]) (by simp [phase])).2⟩

end Runs

end SotwStreams
