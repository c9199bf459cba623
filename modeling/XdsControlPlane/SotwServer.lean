import XdsControlPlane.ExecutableRuns
import XdsControlPlane.SharedCells
import XdsControlPlane.SotwSnapshots

/-!
Chapter 2, `main.rs`: the admin calls and the ADS streams as tasks over one
`Control`. A task step is one access to shared state, or one `push_if_new`.
Requests are taken when the stream's `select!` takes them; the order in which
the watch arm visits the subscribed types is chosen by the run.
-/
namespace SotwServer
open ExecutableRuns SharedCells KeyedMaps EnvoyMessages SotwSnapshots

/-- The fields the stream loop reads. `node` and `resource_names` are logged only. -/
structure DiscoveryRequest where
  typeUrl : String
  versionInfo : String
  responseNonce : String
  errorDetail : Option String
  deriving DecidableEq, Repr

abbrev DiscoveryRequest.IsNack (r : DiscoveryRequest) : Prop := r.errorDetail.isSome

abbrev DiscoveryRequest.IsSubscribe (r : DiscoveryRequest) : Prop :=
  r.errorDetail = none ∧ r.responseNonce = ""

structure Control where
  advertised : Watch Snapshot
  lastGood : Snapshot
  upstreamIp : String
  version : UInt64

/-- `issued` and `acked` are history: the snapshots built so far in the order of
    their numbers, and the versions that ACKs have named. No step reads them. -/
structure World extends Control where
  issued : List Snapshot
  acked : List String

def startup (upstreamIp : String) : World :=
  let v1 := Snapshot.good "v1" upstreamIp
  { advertised := .channel v1, lastGood := v1, upstreamIp := upstreamIp, version := 1
    issued := [v1], acked := [] }

inductive PushKind where
  | good
  | broken
  deriving DecidableEq, Repr

def PushKind.snapshot : PushKind → String → String → Snapshot
  | .good => Snapshot.good
  | .broken => Snapshot.broken

/-- A push after its `fetch_add`, and for `push_good` after the store. -/
inductive Push where
  | numbered : PushKind → Snapshot → Push
  | stored : Snapshot → Push
  | done : Push

inductive Phase where
  | select : Phase
  | subscribing : String → Snapshot → Phase
  | nacking : Snapshot → Phase
  | watching : Snapshot → List String → Phase
  | closed : Phase

/-- `sent_version` and the responses put on the outbound channel, latest first. -/
structure Outbox where
  sentVersion : HashMap String String
  responses : List DiscoveryResponse

structure AdsStream where
  receiver : Receiver
  subscribed : HashSet String
  outbox : Outbox
  phase : Phase
  received : List DiscoveryRequest

inductive ControlTask where
  | push : Push → ControlTask
  | stream : AdsStream → ControlTask

inductive Call where
  | push : PushKind → Call
  | openStream : Call
  deriving DecidableEq, Repr

inductive Act where
  | proceed : Act
  | request : DiscoveryRequest → Act
  | respond : Act
  | rollback : Act
  | wake : List String → Act
  | deliver : Act
  | close : Act
  deriving DecidableEq, Repr

def pushIfNew (typeUrl : String) (snap : Snapshot) (o : Outbox) : Outbox :=
  if o.sentVersion.lookup typeUrl = some snap.version then o
  else match snap.buildResponse typeUrl with
    | none => o
    | some resp =>
      { sentVersion := o.sentVersion.insert typeUrl snap.version
        responses := resp :: o.responses }

def Outbox.last (o : Outbox) (typeUrl : String) : Option DiscoveryResponse :=
  o.responses.find? fun r => r.typeUrl = typeUrl

/-- Types for which the stream has handled a subscribe request. -/
def AdsStream.Asked (s : AdsStream) (typeUrl : String) : Prop :=
  ∃ r ∈ s.received, r.typeUrl = typeUrl ∧ r.IsSubscribe

/-- The snapshot a stream is in the middle of sending, and the types it still owes. -/
def Phase.sending : Phase → Option Snapshot
  | .subscribing _ snap => some snap
  | .watching snap _ => some snap
  | _ => none

def Phase.owed : Phase → List String
  | .subscribing typeUrl _ => [typeUrl]
  | .watching _ todo => todo
  | _ => []

def AdsStream.opened (w : World) : AdsStream :=
  { receiver := w.advertised.subscribe
    subscribed := .empty
    outbox := ⟨∅, []⟩
    phase := .select
    received := [] }

def nextVersion (w : World) : World × String :=
  let n := fetchAddOne w.version
  ({ w with version := n }, versionLabel n)

def spawn (w : World) : Call → World × ControlTask
  | .push kind =>
    let (w, v) := nextVersion w
    let snap := kind.snapshot v w.upstreamIp
    ({ w with issued := w.issued ++ [snap] }, .push (.numbered kind snap))
  | .openStream => (w, .stream (.opened w))

def stepPush (w : World) : Push → Option (World × Push)
  | .numbered .good snap => some ({ w with lastGood := snap }, .stored snap)
  -- push_broken deliberately leaves last_good alone
  | .numbered .broken snap => some ({ w with advertised := w.advertised.send snap }, .done)
  | .stored snap => some ({ w with advertised := w.advertised.send snap }, .done)
  | .done => none

/-- The stream once it has taken request `r`, in phase `phase` of handling it. -/
def AdsStream.taking (s : AdsStream) (r : DiscoveryRequest) (phase : Phase) : AdsStream :=
  { s with subscribed := s.subscribed.insert r.typeUrl, received := s.received ++ [r], phase := phase }

/-- The request arm up to its first access to shared state. -/
def handleRequest (w : World) (s : AdsStream) (r : DiscoveryRequest) : World × AdsStream :=
  if r.IsNack then (w, s.taking r (.nacking w.lastGood))
  else if r.responseNonce = "" then (w, s.taking r (.subscribing r.typeUrl w.advertised.borrow))
  else ({ w with acked := w.acked ++ [r.versionInfo] }, s.taking r .select)

def stepStream (w : World) (s : AdsStream) : Phase → Act → Option (World × AdsStream)
  | .select, .request r => some (handleRequest w s r)
  | .subscribing typeUrl snap, .respond =>
    some (w, { s with outbox := pushIfNew typeUrl snap s.outbox, phase := .select })
  | .nacking good, .rollback =>
    some ({ w with advertised := w.advertised.send good }, { s with phase := .select })
  | .select, .wake order =>
    if s.receiver.seen ≠ w.advertised.stamp ∧ order.Perm s.subscribed.elems then
      let (snap, receiver) := w.advertised.borrowAndUpdate
      some (w, { s with receiver := receiver, phase := .watching snap order })
    else none
  | .watching snap (typeUrl :: todo), .deliver =>
    some (w, { s with outbox := pushIfNew typeUrl snap s.outbox, phase := .watching snap todo })
  | .watching _ [], .deliver => some (w, { s with phase := .select })
  -- inbound end or error in select!, and a failed tx.send at either await
  | .select, .close => some (w, { s with phase := .closed })
  | .subscribing _ _, .close => some (w, { s with phase := .closed })
  | .watching _ _, .close => some (w, { s with phase := .closed })
  | _, _ => none

def stepTask (w : World) : ControlTask → Act → Option (World × ControlTask)
  | .push p, .proceed => (stepPush w p).map fun r => (r.1, .push r.2)
  | .push _, _ => none
  | .stream s, a => (stepStream w s s.phase a).map fun r => (r.1, .stream r.2)

def server : Program World ControlTask Call Act := ⟨spawn, stepTask⟩

abbrev State := System World ControlTask
abbrev Step := Event Call Act

def start (upstreamIp : String) : State := ⟨startup upstreamIp, []⟩

/- What each step does to the world and to its own task, guards included. -/

inductive PushStep (w : World) : Push → World → Push → Prop where
  | store (snap : Snapshot) :
      PushStep w (.numbered .good snap) { w with lastGood := snap } (.stored snap)
  | publishBroken (snap : Snapshot) :
      PushStep w (.numbered .broken snap) { w with advertised := w.advertised.send snap } .done
  | publishGood (snap : Snapshot) :
      PushStep w (.stored snap) { w with advertised := w.advertised.send snap } .done

inductive StreamStep (w : World) (s : AdsStream) : Act → World → AdsStream → Prop where
  | nack (r : DiscoveryRequest) (phase : s.phase = .select) (isNack : r.IsNack) :
      StreamStep w s (.request r) w (s.taking r (.nacking w.lastGood))
  | subscribe (r : DiscoveryRequest) (phase : s.phase = .select) (isSubscribe : r.IsSubscribe) :
      StreamStep w s (.request r) w (s.taking r (.subscribing r.typeUrl w.advertised.value))
  | ack (r : DiscoveryRequest) (phase : s.phase = .select) (notNack : r.errorDetail = none)
      (answers : r.responseNonce ≠ "") :
      StreamStep w s (.request r) { w with acked := w.acked ++ [r.versionInfo] }
        (s.taking r .select)
  | respond (typeUrl : String) (snap : Snapshot) (phase : s.phase = .subscribing typeUrl snap) :
      StreamStep w s .respond w
        { s with outbox := pushIfNew typeUrl snap s.outbox, phase := .select }
  | rollback (good : Snapshot) (phase : s.phase = .nacking good) :
      StreamStep w s .rollback { w with advertised := w.advertised.send good }
        { s with phase := .select }
  | wake (order : List String) (phase : s.phase = .select)
      (behind : s.receiver.seen ≠ w.advertised.stamp) (visits : order.Perm s.subscribed.elems) :
      StreamStep w s (.wake order) w
        { s with receiver := ⟨w.advertised.stamp⟩, phase := .watching w.advertised.value order }
  | deliver (snap : Snapshot) (typeUrl : String) (todo : List String)
      (phase : s.phase = .watching snap (typeUrl :: todo)) :
      StreamStep w s .deliver w
        { s with outbox := pushIfNew typeUrl snap s.outbox, phase := .watching snap todo }
  | finish (snap : Snapshot) (phase : s.phase = .watching snap []) :
      StreamStep w s .deliver w { s with phase := .select }
  | close (notNacking : ∀ good, s.phase ≠ .nacking good) :
      StreamStep w s .close w { s with phase := .closed }

theorem push_step {w w' : World} {p p' : Push} (h : stepPush w p = some (w', p')) :
    PushStep w p w' p' := by
  unfold stepPush at h
  split at h
  · cases h; exact .store _
  · cases h; exact .publishBroken _
  · cases h; exact .publishGood _
  · contradiction

theorem handle_request_step (w : World) {s : AdsStream} (r : DiscoveryRequest)
    (phase : s.phase = .select) :
    StreamStep w s (.request r) (handleRequest w s r).1 (handleRequest w s r).2 := by
  unfold handleRequest
  split
  · rename_i isNack
    exact .nack r phase isNack
  · rename_i notNack
    have clean : r.errorDetail = none := by
      cases err : r.errorDetail <;> simp_all [DiscoveryRequest.IsNack]
    split
    · rename_i noNonce
      exact .subscribe r phase ⟨clean, noNonce⟩
    · rename_i answers
      exact .ack r phase clean answers

theorem stream_step {w w' : World} {s s' : AdsStream} {a : Act}
    (h : stepStream w s s.phase a = some (w', s')) : StreamStep w s a w' s' := by
  unfold stepStream at h
  split at h
  · rename_i r phase
    have taken := handle_request_step w r phase
    rw [Option.some.inj h] at taken
    exact taken
  · rename_i typeUrl snap phase
    cases h; exact .respond typeUrl snap phase
  · rename_i good phase
    cases h; exact .rollback good phase
  · rename_i order phase
    split at h
    · rename_i guard
      cases h; exact .wake order phase guard.1 guard.2
    · contradiction
  · rename_i snap typeUrl todo phase
    cases h; exact .deliver snap typeUrl todo phase
  · rename_i snap phase
    cases h; exact .finish snap phase
  · rename_i phase
    cases h; exact .close (by rw [phase]; nofun)
  · rename_i phase
    cases h; exact .close (by rw [phase]; nofun)
  · rename_i phase
    cases h; exact .close (by rw [phase]; nofun)
  · contradiction

/-- A `push_if_new` of `typeUrl` out of the snapshot in hand, with `next` left to do. -/
structure Pays (phase next : Phase) (typeUrl : String) (snap : Snapshot) : Prop where
  sending : phase.sending = some snap
  nextSending : ∀ snap', next.sending = some snap' → snap' = snap
  notNacking : ∀ good, next ≠ .nacking good
  paid : ∀ other ∈ phase.owed, other = typeUrl ∨ other ∈ next.owed

theorem respond_pays {phase : Phase} {typeUrl : String} {snap : Snapshot}
    (subscribing : phase = .subscribing typeUrl snap) : Pays phase .select typeUrl snap := by
  subst subscribing
  constructor <;> simp [Phase.sending, Phase.owed]

theorem deliver_pays {phase : Phase} {typeUrl : String} {snap : Snapshot} {todo : List String}
    (watching : phase = .watching snap (typeUrl :: todo)) :
    Pays phase (.watching snap todo) typeUrl snap := by
  subst watching
  constructor <;> simp [Phase.sending, Phase.owed, eq_comm]

theorem pays_open {phase next : Phase} {typeUrl : String} {snap : Snapshot}
    (pays : Pays phase next typeUrl snap) : phase ≠ .closed := by
  rintro rfl
  simpa [Phase.sending] using pays.sending

theorem task_step {w w' : World} {t t' : ControlTask} {a : Act} (h : stepTask w t a = some (w', t')) :
    (∃ p p', t = .push p ∧ t' = .push p' ∧ PushStep w p w' p') ∨
    (∃ s s', t = .stream s ∧ t' = .stream s' ∧ StreamStep w s a w' s') := by
  unfold stepTask at h
  split at h
  · obtain ⟨⟨w₁, p'⟩, moved, eq⟩ := Option.map_eq_some_iff.mp h
    cases eq
    exact Or.inl ⟨_, p', rfl, rfl, push_step moved⟩
  · contradiction
  · obtain ⟨⟨w₁, s'⟩, moved, eq⟩ := Option.map_eq_some_iff.mp h
    cases eq
    exact Or.inr ⟨_, s', rfl, rfl, stream_step moved⟩

/-- `push_good` and `push_broken` as the source states them, run without a pause. -/
def pushGood (w : World) : World × String :=
  let (w, v) := nextVersion w
  let snap := Snapshot.good v w.upstreamIp
  let w := { w with lastGood := snap }
  ({ w with advertised := w.advertised.send snap }, v)

def pushBroken (w : World) : World × String :=
  let (w, v) := nextVersion w
  let snap := Snapshot.broken v w.upstreamIp
  ({ w with advertised := w.advertised.send snap }, v)

/-- From any state, a push whose steps nothing interrupts is the source's call. -/
theorem push_good_uninterrupted (s : State) :
    ∃ s', exec server.next s [.spawn (.push .good), .step s.tasks.length .proceed,
        .step s.tasks.length .proceed] = some s' ∧
      s'.shared.toControl = (pushGood s.shared).1.toControl := by
  simp [exec, Program.next, server, spawn, stepTask, stepPush, pushGood, nextVersion,
    PushKind.snapshot]

theorem push_broken_uninterrupted (s : State) :
    ∃ s', exec server.next s [.spawn (.push .broken), .step s.tasks.length .proceed] = some s' ∧
      s'.shared.toControl = (pushBroken s.shared).1.toControl := by
  simp [exec, Program.next, server, spawn, stepTask, stepPush, pushBroken, nextVersion,
    PushKind.snapshot]

/-- The demo: a subscribed client is sent the broken v2, and rejects it. -/
def brokenPush : List Step :=
  [.spawn .openStream, .step 0 (.request ⟨tListener, "", "", none⟩), .step 0 .respond,
    .spawn (.push .broken), .step 1 .proceed,
    .step 0 (.wake [tListener]), .step 0 .deliver, .step 0 .deliver]

def rejection : List Step :=
  [.step 0 (.request ⟨tListener, "v1", "lds-v2", some "empty stat_prefix"⟩), .step 0 .rollback,
    .step 0 (.wake [tListener]), .step 0 .deliver, .step 0 .deliver]

end SotwServer
