import XdsControlPlane.WatchReaders
import XdsControlPlane.DeltaConvergence
import XdsControlPlane.DeltaDifference
import XdsControlPlane.SotwNonces

/-!
Chapter 4, the Delta streams as readers of the bumps. Every response is a difference
to one snapshot that was advertised, the differences go through the publications in
order, and a nonce counts its response's place on the stream. Once the bumps pause a
number of steps known beforehand brings a stream up to date, and then its client
holds what is advertised.
-/
namespace DeltaHistory
open ExecutableRuns SharedCells KeyedMaps IncrementalSync EnvoyMessages WatchReaders DeltaSnapshots
  DeltaStream DeltaServer DeltaConvergence
open DeltaDifference (send_nonce)
open SotwNonces (string_append_inj)

/- Responses -/

/-- All that the response adds is of the snapshot, and all that it removes is not in it. -/
structure OfSnapshot (snap : Snapshot) (r : DeltaDiscoveryResponse) : Prop where
  systemVersion : r.systemVersionInfo = snap.systemVersion
  added : ∀ x ∈ r.resources, snap.get r.typeUrl x.name = some ⟨x.version, x.resource⟩
  removed : ∀ n ∈ r.removedResources, snap.get r.typeUrl n = none
  something : r.resources ≠ [] ∨ r.removedResources ≠ []

def nonceOf (typeUrl : String) (n : UInt64) : String :=
  toLowercase (shortType typeUrl) ++ "-" ++ toString n.toNat

/-- The nonces, latest first, count down to 1. -/
def CountDown : List DeltaDiscoveryResponse → Prop
  | [] => True
  | r :: older => r.nonce = nonceOf r.typeUrl (UInt64.ofNat (older.length + 1)) ∧ CountDown older

structure Counted (l : Loop) : Prop where
  counter : l.vars.nonceCtr = UInt64.ofNat l.outbox.length
  nonces : CountDown l.outbox

section Responses
variable {sel : Selection} {typeUrl : String} {snap : Snapshot} {s : StreamVars}
  {r : DeltaDiscoveryResponse}

theorem send_of_snapshot (sent : (sendDelta sel typeUrl snap s).2 = some r) : OfSnapshot snap r := by
  have spec := send_delta_spec sel typeUrl snap s
  obtain ⟨named, system, something⟩ := spec.response r sent
  have bridges := spec.bridges
  rw [sent] at bridges
  constructor
  case systemVersion => exact system
  case added =>
    intro x member
    rw [named]
    exact ((bridges.upserts x.name ⟨x.version, x.resource⟩).mp (List.mem_map_of_mem member)).2.1
  case removed =>
    intro n member
    rw [named]
    exact ((bridges.removals n).mp member).2.1
  case something => exact something

theorem counted_visit {l : Loop} (counted : Counted l) (sel : Selection) (snap : Snapshot)
    (typeUrl : String) : Counted (l.visit sel snap typeUrl) := by
  have spec := send_delta_spec sel typeUrl snap l.vars
  have counter := spec.nonceCtr
  unfold Loop.visit Loop.put
  cases sent : (sendDelta sel typeUrl snap l.vars).2 with
  | none =>
    rw [sent] at counter
    refine ⟨?_, counted.nonces⟩
    simpa using counter.trans (by simpa using counted.counter)
  | some r =>
    rw [sent] at counter
    have next : (sendDelta sel typeUrl snap l.vars).1.nonceCtr = UInt64.ofNat (l.outbox.length + 1) := by
      rw [counter, counted.counter]
      simp [UInt64.ofNat_add]
    refine ⟨next, ?_, counted.nonces⟩
    rw [send_nonce sel typeUrl snap l.vars sent, next, (spec.response r sent).1]
    rfl

theorem short_length (typeUrl : String) : (toLowercase (shortType typeUrl)).length = 3 := by
  unfold shortType
  split_ifs <;> rfl

theorem nonce_inj {a b : String} {m n : UInt64} (same : nonceOf a m = nonceOf b n) : m = n := by
  unfold nonceOf at same
  rw [String.append_assoc, String.append_assoc] at same
  obtain ⟨_, back⟩ := string_append_inj ((short_length a).trans (short_length b).symm) same
  have digits := (string_append_inj rfl back).2
  exact UInt64.toNat_inj.mp (Nat.repr_inj.mp digits)

theorem nonce_place {rs : List DeltaDiscoveryResponse} (counts : CountDown rs) :
    ∀ r ∈ rs, ∃ k, k < rs.length ∧ r.nonce = nonceOf r.typeUrl (UInt64.ofNat (k + 1)) := by
  induction rs with
  | nil => simp
  | cons q older ih =>
    intro r member
    rcases List.mem_cons.mp member with rfl | old
    · exact ⟨older.length, Nat.lt_succ_self _, counts.1⟩
    · obtain ⟨k, below, nonce⟩ := ih counts.2 r old
      exact ⟨k, Nat.lt_succ_of_lt below, nonce⟩

theorem nonces_distinct {rs : List DeltaDiscoveryResponse} (counts : CountDown rs)
    (few : rs.length < 2 ^ 64) : (rs.map DeltaDiscoveryResponse.nonce).Nodup := by
  induction rs with
  | nil => exact List.nodup_nil
  | cons q older ih =>
    rw [List.length_cons] at few
    rw [List.map_cons, List.nodup_cons]
    refine ⟨?_, ih counts.2 (by omega)⟩
    intro member
    obtain ⟨r, old, same⟩ := List.mem_map.mp member
    obtain ⟨k, below, nonce⟩ := nonce_place counts.2 r old
    rw [nonce, counts.1] at same
    have := number_injective (by omega) (by omega) (nonce_inj same)
    omega

end Responses

/-- A loop as the channel of a watch reader: it visits a type with a snapshot. -/
def deltas (sel : Selection) : Channel String Snapshot Loop DeltaDiscoveryResponse where
  put typeUrl snap l := l.visit sel snap typeUrl
  sent := Loop.outbox
  renders := OfSnapshot
  key _ := none
  ok := Counted
  put_ok typeUrl snap _ counted := counted_visit counted sel snap typeUrl
  put_sent typeUrl snap l _ := by
    cases sent : (sendDelta sel typeUrl snap l.vars).2 with
    | none => exact Or.inl (by simp [Loop.visit, Loop.put, sent])
    | some r =>
      refine Or.inr ⟨r, send_of_snapshot sent, by simp [Loop.visit, Loop.put, sent], ?_⟩
      intro j newer last older keyed
      cases keyed

/-- `places` gives each response the place in `published` of the snapshot it is a
    difference to; the places never go back. -/
structure InHistory (published : List Snapshot) (responses : List DeltaDiscoveryResponse)
    (places : List (DeltaDiscoveryResponse × Nat)) : Prop where
  responses : places.map Prod.fst = responses
  rendered : ∀ x ∈ places, ∃ snap, published[x.2]? = some snap ∧ OfSnapshot snap x.1
  forward : places.Pairwise fun later earlier => earlier.2 ≤ later.2

/- The streams as readers -/

def stageOf : Phase → Stage String Snapshot
  | .select => .idle
  | .answering typeUrl snap => .answering typeUrl snap
  | .watching snap todo => .visiting snap todo
  | .closed => .closed

/-- The types that the stream follows: a visit to an owed type enters it. -/
def keysOf (s : AdsStream) : List String :=
  (s.phase.owed.foldl (fun subs t => orDefault subs t default) s.vars.subs).keys

def loopOf (s : AdsStream) : Loop := ⟨s.vars, s.outbox⟩

def readerOf (s : AdsStream) : Reader String Snapshot Loop :=
  ⟨s.receiver, keysOf s, stageOf s.phase, loopOf s⟩

/-- The steps that the loop takes by itself, once it has something to do. -/
def ownAct : Act → Bool
  | .respond => true
  | .wake _ => true
  | .deliver => true
  | _ => false

theorem subs_after_send (sel : Selection) (typeUrl : String) (snap : Snapshot) (s : StreamVars) :
    (sendDelta sel typeUrl snap s).1.subs = orDefault s.subs typeUrl default := by
  unfold sendDelta
  simp only
  split <;> rfl

theorem known_fold {subs : HashMap String TypeSub} {order : List String}
    (known : ∀ t ∈ order, (subs.lookup t).isSome) :
    order.foldl (fun subs t => orDefault subs t default) subs = subs := by
  induction order with
  | nil => rfl
  | cons t order ih =>
    rw [List.foldl_cons, orDefault_known (known t List.mem_cons_self)]
    exact ih fun u member => known u (List.mem_cons_of_mem t member)

theorem record_keys (s : StreamVars) (r : DeltaDiscoveryRequest) :
    r.typeUrl ∈ (s.record r).subs.keys ∧ s.subs.keys ⊆ (s.record r).subs.keys := by
  have lookup := record_subs s r
  have held : ∀ t, t ∈ (s.record r).subs.keys ↔ t = r.typeUrl ∨ t ∈ s.subs.keys := by
    intro t
    rw [← AList.mem_keys, ← AList.mem_keys, ← AList.lookup_isSome, ← AList.lookup_isSome, lookup]
    split
    · rename_i same
      simp [same]
    · rename_i other
      simp [other]
  exact ⟨(held r.typeUrl).mpr (Or.inl rfl), fun t member => (held t).mpr (Or.inr member)⟩

theorem stream_reads {w : Control} {s s' : AdsStream} {a : Act} (step : StreamStep w s a s') :
    ReaderStep (deltas exactNames) w.advertised (readerOf s) (ownAct a) (readerOf s') := by
  obtain ⟨b, rfl, step⟩ := step
  cases step with
  | nack r phase isNack =>
    have idle : (readerOf s).stage = .idle := congrArg stageOf phase
    have moved := ReaderStep.note (c := deltas exactNames) (w := w.advertised) (readerOf s).keys
      (loopOf s) .idle idle (Or.inl rfl) (List.Subset.refl _) rfl id
    rwa [← idle] at moved
  | record r phase clean =>
    obtain ⟨asked, grows⟩ := record_keys s.vars r
    have known := (AList.lookup_isSome.mpr (AList.mem_keys.mpr asked))
    have keys : (readerOf s).keys = s.vars.subs.keys := by
      simp [readerOf, keysOf, phase, Phase.owed]
    have keys' : keysOf { s with
        vars := s.vars.record r
        requests := s.requests ++ [r]
        phase := .answering r.typeUrl w.advertised.value } = (s.vars.record r).subs.keys := by
      simp only [keysOf, Phase.owed, List.foldl_cons, List.foldl_nil, orDefault_known known]
    have moved := ReaderStep.ask (c := deltas exactNames) (w := w.advertised) (r := readerOf s)
      r.typeUrl (s.vars.record r).subs.keys ⟨s.vars.record r, s.outbox⟩ (congrArg stageOf phase)
      asked (keys ▸ grows) rfl (fun counted => ⟨counted.counter, counted.nonces⟩)
    rw [← keys'] at moved
    exact moved
  | respond typeUrl snap phase =>
    have moved := ReaderStep.answer (c := deltas exactNames) (w := w.advertised) (r := readerOf s)
      typeUrl snap (congrArg stageOf phase)
    have keys : keysOf (s.send exactNames typeUrl snap .select) = keysOf s := by
      simp only [keysOf, AdsStream.send, phase, Phase.owed, List.foldl_cons, List.foldl_nil,
        subs_after_send]
    unfold readerOf
    rw [keys]
    exact moved
  | wake order phase behind visits =>
    have keys : (readerOf s).keys = s.vars.subs.keys := by
      simp [readerOf, keysOf, phase, Phase.owed]
    have moved := ReaderStep.wake (c := deltas exactNames) (w := w.advertised) (r := readerOf s)
      order (congrArg stageOf phase) behind (keys.symm ▸ visits)
    have keys' : keysOf { s with
        receiver := ⟨w.advertised.stamp⟩
        phase := .watching w.advertised.value order } = (readerOf s).keys := by
      rw [keys, keysOf, Phase.owed, known_fold fun t => (held_iff_visited visits t).mpr]
    unfold readerOf
    rw [keys']
    exact moved
  | deliver snap typeUrl todo phase =>
    have moved := ReaderStep.visit (c := deltas exactNames) (w := w.advertised) (r := readerOf s)
      typeUrl snap todo (congrArg stageOf phase)
    have keys : keysOf (s.send exactNames typeUrl snap (.watching snap todo)) = keysOf s := by
      simp only [keysOf, AdsStream.send, phase, Phase.owed, List.foldl_cons, subs_after_send]
    unfold readerOf
    rw [keys]
    exact moved
  | finish snap phase =>
    have moved := ReaderStep.finish (c := deltas exactNames) (w := w.advertised) (r := readerOf s)
      snap (congrArg stageOf phase)
    have keys : keysOf { s with phase := .select } = keysOf s := by
      simp only [keysOf, phase, Phase.owed, List.foldl_nil]
    unfold readerOf
    rw [keys]
    exact moved
  | close => exact .close _

def streamOf : ControlTask → Option AdsStream
  | .bump _ => none
  | .stream s => some s

theorem stream_iff (t : ControlTask) (s : AdsStream) : streamOf t = some s ↔ t = .stream s := by
  cases t <;> simp [streamOf]

theorem stream_moves {w : Control} {s : AdsStream} (due : (readerOf s).Due w.advertised) :
    ∃ a s', ownAct a ∧ stepStream w s s.phase a = some s' := by
  obtain ⟨receiver, vars, phase, outbox, requests, cache⟩ := s
  cases phase with
  | select => exact ⟨.wake vars.subs.keys, _, rfl, if_pos ⟨due, List.Perm.refl _⟩⟩
  | answering typeUrl snap => exact ⟨.respond, _, rfl, rfl⟩
  | watching snap todo =>
    cases todo with
    | nil => exact ⟨.deliver, _, rfl, rfl⟩
    | cons typeUrl todo => exact ⟨.deliver, _, rfl, rfl⟩
  | closed => exact due.elim

def streams : Readers server (deltas exactNames) where
  watch := Control.advertised
  reader t := (streamOf t).map readerOf
  own := ownAct
  spawned w call := by
    cases call with
    | bump => exact ⟨rfl, by simp [server, spawn, streamOf]⟩
    | openStream cache =>
      refine ⟨rfl, ?_⟩
      rintro r ⟨⟩
      exact ⟨rfl, rfl, rfl, rfl, trivial⟩
  stepped w t a w' t' step := by
    rcases task_step step with ⟨snap, rfl, rfl, rfl, rfl⟩ | ⟨s, s', rfl, rfl, rfl, moved⟩
    · exact .other _ _ (Or.inr ⟨snap, rfl⟩)
    · exact .read _ _ _ (stream_reads moved)
  enabled := by
    refine enabled_of_due ControlTask.stream stream_iff ?_
    intro w s due
    obtain ⟨a, s', own, moved⟩ := stream_moves due
    exact ⟨a, s', own, by simp [server, stepTask, moved]⟩

def sessions : Streams streams AdsStream where
  task := .stream
  streamOf := streamOf
  read := readerOf
  reads _ := rfl
  stream_iff := stream_iff

/-- Every snapshot that was ever advertised, in order. -/
def history (ip : String) (es : List Step) : List Snapshot := streams.history (start ip) es

/- Whole runs -/

section Runs
variable {ip : String} {es : List Step} {st : State} {i : Nat} {s : AdsStream}

/-- In every interleaving of bumps with any number of streams and of requests: every
    response is a difference to one snapshot that was advertised, the differences go
    through the snapshots in the order in which they were advertised, and no nonce
    comes twice among fewer than 2^64 responses of a stream. -/
theorem deltas_follow_publications (run : exec server.next (start ip) es = some st)
    (found : st.tasks[i]? = some (.stream s)) :
    (∃ places, InHistory (history ip es) s.outbox places) ∧
    (s.outbox.length < 2 ^ 64 → (s.outbox.map DeltaDiscoveryResponse.nonce).Nodup) := by
  have inOrder := sent_in_order (P := streams) (by simp [start]) run found rfl
  constructor
  · obtain ⟨n, places, follows, _⟩ := inOrder.sent
    exact ⟨places, follows.sent, follows.renders, follows.descending⟩
  · have counted : Counted (loopOf s) := inOrder.ok
    exact fun few => nonces_distinct counted.nonces few

theorem delta_follows_coalesced_bumps :
    ∃ st s, exec server.next (start "10.0.0.1") coalescedBumps = some st ∧
      st.tasks[0]? = some (.stream s) ∧
      ∃ places, InHistory (history "10.0.0.1" coalescedBumps) s.outbox places := by
  obtain ⟨st, s, run, found⟩ :
      ∃ st s, exec server.next (start "10.0.0.1") coalescedBumps = some st ∧
        st.tasks[0]? = some (.stream s) := ⟨_, _, rfl, rfl⟩
  exact ⟨st, s, run, found, (deltas_follow_publications run found).1⟩

/- Catching up -/

/-- The steps of its own after which a stream waits with the latest snapshot seen: the
    sends of the arm it is in, and of the watch arm if a change is pending. -/
def stepsLeft (w : Control) (s : AdsStream) : Nat :=
  (match s.phase with
    | .answering _ _ => 1
    | .watching _ todo => todo.length + 1
    | _ => 0) +
  if s.receiver.seen = w.advertised.stamp then 0 else s.vars.subs.keys.length + 2

theorem steps_left {w : Control} (ok : StreamOk w s) :
    (readerOf s).remaining w.advertised = stepsLeft w s := by
  have keys : keysOf s = s.vars.subs.keys := by rw [keysOf, known_fold ok.owed]
  unfold Reader.remaining stepsLeft readerOf
  rw [keys]
  cases s.phase <;> rfl

/-- The stream waits with the latest snapshot seen, and its client holds of every name
    that it wants what the advertised snapshot holds. -/
def HoldsAdvertised (i : Nat) (st : State) : Prop :=
  ∃ s, st.tasks[i]? = some (.stream s) ∧ s.phase = .select ∧
    s.receiver.UpToDate st.shared.advertised ∧ ∀ t, Subscribed s t → ∀ n, Wants s t n →
      s.cache t n = st.shared.advertised.value.get t n

theorem stage_idle {s : AdsStream} : (readerOf s).stage = .idle ↔ s.phase = .select := by
  cases phase : s.phase <;> simp [readerOf, stageOf, phase]

theorem stage_open (isOpen : s.phase ≠ .closed) :
    (readerOf s).stage ≠ .closed ∧ (readerOf s).stage ≠ .away := by
  cases phase : s.phase <;> simp_all [readerOf, stageOf]

theorem caught_up_holds (ok : ServerOk i st) : streams.CaughtUp i st ↔ HoldsAdvertised i st := by
  rw [caught_up_at sessions]
  constructor
  · rintro ⟨s, found, idle, seen⟩
    have phase := stage_idle.mp idle
    have settled := ((ok.stream s found).settled (by simp [phase])).settled seen
    refine ⟨s, found, phase, seen, ?_⟩
    intro t subscribed n wanted
    exact settled.current t subscribed (by simp [phase, Phase.owed]) n wanted
  · rintro ⟨s, found, phase, seen, _⟩
    exact ⟨s, found, stage_idle.mpr phase, seen⟩

def Unspoken (i : Nat) (e : Step) : Prop := ∀ a, e = .step i a → ownAct a

theorem ok_unspoken {st' : State} {fs : List Step} (ok : ServerOk i st)
    (there : i < st.tasks.length) (own : ∀ a, .step i a ∈ fs → ownAct a)
    (more : exec server.next st fs = some st') : ServerOk i st' := by
  have unspoken : ∀ e ∈ fs, Unspoken i e := by
    rintro e member a rfl
    exact own a member
  have kept := along_invariant (I := fun st => ServerOk i st ∧ i < st.tasks.length) ?_ more
    (along_of_mem unspoken) ⟨ok, there⟩
  · exact kept.1
  · rintro st e st' ⟨ok, there⟩ unspoken h
    constructor
    · apply server_ok_next ok ?_ h
      cases e with
      | spawn call =>
        cases call with
        | bump => trivial
        | openStream cache => exact fun last => absurd last (by omega)
      | step j a =>
        cases a with
        | request r =>
          intro same
          cases unspoken (.request r) (by rw [same])
        | _ => trivial
    · exact Nat.lt_of_lt_of_le there (tasks_grow h)

theorem quiet_step {st' : State} {e : Step} (quiet : ∀ j, e ≠ .step j .proceed)
    (h : server.next st e = some st') : st'.shared.advertised = st.shared.advertised := by
  rcases next_cases h with ⟨call, rfl, rfl⟩ | ⟨j, a, t, w, t', rfl, _, moved, rfl⟩
  · cases call <;> rfl
  · rcases task_step moved with ⟨snap, rfl, rfl, rfl, rfl⟩ | ⟨s, s', rfl, rfl, rfl, _⟩
    · exact absurd rfl (quiet j)
    · rfl

theorem stream_left (ok : StreamOk st.shared s) (found : st.tasks[i]? = some (.stream s))
    (isOpen : s.phase ≠ .closed) : streams.Left i (stepsLeft st.shared s) st := by
  rw [← steps_left ok]
  exact left_at sessions found (stage_open isOpen).1 (stage_open isOpen).2

end Runs

end DeltaHistory
