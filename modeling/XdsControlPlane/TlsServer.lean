import XdsControlPlane.ExecutableRuns
import XdsControlPlane.SharedCells
import XdsControlPlane.TlsSnapshots

/-!
Chapter 3, `main.rs`: the rotations and the ADS streams as tasks over one
`Control`. A rotation takes its version, then mints a certificate, which may
fail, then sends. The streams are Chapter 2's without the rollback: a rejection
is logged and nothing else.
-/
namespace TlsServer
open ExecutableRuns SharedCells KeyedMaps EnvoyMessages TlsSnapshots

/-- The fields the stream loop reads. `node` and `resource_names` are logged only. -/
structure DiscoveryRequest where
  typeUrl : String
  versionInfo : String
  responseNonce : String
  errorDetail : Option String
  deriving DecidableEq, Repr

abbrev DiscoveryRequest.IsNack (r : DiscoveryRequest) : Prop := r.errorDetail.isSome

structure Control where
  advertised : Watch Snapshot
  upstreamIp : String
  version : UInt64

/-- A rotation after `next_version`, after `Snapshot::build`, and at its end, where
    `failed` is an error from `self_signed`. -/
inductive Rotate where
  | numbered : String → Rotate
  | built : Snapshot → Rotate
  | done : Rotate
  | failed : Rotate

inductive Phase where
  | select : Phase
  | subscribing : String → Snapshot → Phase
  | watching : Snapshot → List String → Phase
  | closed : Phase

/-- The snapshot a stream is in the middle of sending. -/
def Phase.sending : Phase → Option Snapshot
  | .subscribing _ snap => some snap
  | .watching snap _ => some snap
  | _ => none

/-- `sent_version` and the responses put on the outbound channel, latest first. -/
structure Outbox where
  sentVersion : HashMap String String
  responses : List DiscoveryResponse

structure AdsStream where
  receiver : Receiver
  subscribed : HashSet String
  outbox : Outbox
  phase : Phase

inductive ControlTask where
  | rotate : Rotate → ControlTask
  | stream : AdsStream → ControlTask

inductive Call where
  | rotate : Call
  | openStream : Call
  deriving DecidableEq, Repr

inductive Act where
  | mint : Option CertPem → Act
  | publish : Act
  | request : DiscoveryRequest → Act
  | respond : Act
  | wake : List String → Act
  | deliver : Act
  | close : Act

def startup (upstreamIp : String) (cert : CertPem) : Control :=
  { advertised := .channel (.build "v1" upstreamIp cert), upstreamIp := upstreamIp, version := 1 }

def nextVersion (w : Control) : Control × String :=
  let n := fetchAddOne w.version
  ({ w with version := n }, versionLabel n)

def pushIfNew (typeUrl : String) (snap : Snapshot) (o : Outbox) : Outbox :=
  if o.sentVersion.lookup typeUrl = some snap.version then o
  else match snap.buildResponse typeUrl with
    | none => o
    | some resp =>
      { sentVersion := o.sentVersion.insert typeUrl snap.version
        responses := resp :: o.responses }

def AdsStream.opened (w : Control) : AdsStream :=
  { receiver := w.advertised.subscribe, subscribed := .empty, outbox := ⟨∅, []⟩, phase := .select }

def spawn (w : Control) : Call → Control × ControlTask
  | .rotate =>
    let (w, v) := nextVersion w
    (w, .rotate (.numbered v))
  | .openStream => (w, .stream (.opened w))

def stepRotate (w : Control) : Rotate → Act → Option (Control × Rotate)
  | .numbered v, .mint (some cert) => some (w, .built (.build v w.upstreamIp cert))
  | .numbered _, .mint none => some (w, .failed)
  | .built snap, .publish => some ({ w with advertised := w.advertised.send snap }, .done)
  | _, _ => none

/-- The request arm up to its read of `advertised`, if it reads it. -/
def handleRequest (w : Control) (s : AdsStream) (r : DiscoveryRequest) : AdsStream :=
  let s := { s with subscribed := s.subscribed.insert r.typeUrl }
  if r.IsNack then s
  else if r.responseNonce = "" then { s with phase := .subscribing r.typeUrl w.advertised.borrow }
  else s

def stepStream (w : Control) (s : AdsStream) : Phase → Act → Option AdsStream
  | .select, .request r => some (handleRequest w s r)
  | .subscribing typeUrl snap, .respond =>
    some { s with outbox := pushIfNew typeUrl snap s.outbox, phase := .select }
  | .select, .wake order =>
    if s.receiver.seen ≠ w.advertised.stamp ∧ order.Perm s.subscribed.elems then
      let (snap, receiver) := w.advertised.borrowAndUpdate
      some { s with receiver := receiver, phase := .watching snap order }
    else none
  | .watching snap (typeUrl :: todo), .deliver =>
    some { s with outbox := pushIfNew typeUrl snap s.outbox, phase := .watching snap todo }
  | .watching _ [], .deliver => some { s with phase := .select }
  -- inbound end or error in select!, and a failed tx.send at either await
  | .select, .close => some { s with phase := .closed }
  | .subscribing _ _, .close => some { s with phase := .closed }
  | .watching _ _, .close => some { s with phase := .closed }
  | _, _ => none

def stepTask (w : Control) : ControlTask → Act → Option (Control × ControlTask)
  | .rotate r, a => (stepRotate w r a).map fun res => (res.1, .rotate res.2)
  | .stream s, a => (stepStream w s s.phase a).map fun s' => (w, .stream s')

def server : Program Control ControlTask Call Act := ⟨spawn, stepTask⟩

abbrev State := System Control ControlTask
abbrev Step := Event Call Act

def start (upstreamIp : String) (cert : CertPem) : State := ⟨startup upstreamIp cert, []⟩

/- What each step does, guards included. -/

inductive RotateStep (w : Control) : Rotate → Act → Control → Rotate → Prop where
  | build (v : String) (cert : CertPem) :
      RotateStep w (.numbered v) (.mint (some cert)) w (.built (.build v w.upstreamIp cert))
  | fail (v : String) : RotateStep w (.numbered v) (.mint none) w .failed
  | publish (snap : Snapshot) :
      RotateStep w (.built snap) .publish { w with advertised := w.advertised.send snap } .done

inductive StreamStep (w : Control) (s : AdsStream) : Act → AdsStream → Prop where
  | note (r : DiscoveryRequest) (phase : s.phase = .select) (quiet : r.IsNack ∨ r.responseNonce ≠ "") :
      StreamStep w s (.request r) { s with subscribed := s.subscribed.insert r.typeUrl }
  | subscribe (r : DiscoveryRequest) (phase : s.phase = .select) (clean : ¬ r.IsNack)
      (noNonce : r.responseNonce = "") :
      StreamStep w s (.request r)
        { s with
          subscribed := s.subscribed.insert r.typeUrl
          phase := .subscribing r.typeUrl w.advertised.value }
  | respond (typeUrl : String) (snap : Snapshot) (phase : s.phase = .subscribing typeUrl snap) :
      StreamStep w s .respond { s with outbox := pushIfNew typeUrl snap s.outbox, phase := .select }
  | wake (order : List String) (phase : s.phase = .select)
      (behind : s.receiver.seen ≠ w.advertised.stamp) (visits : order.Perm s.subscribed.elems) :
      StreamStep w s (.wake order)
        { s with receiver := ⟨w.advertised.stamp⟩, phase := .watching w.advertised.value order }
  | deliver (snap : Snapshot) (typeUrl : String) (todo : List String)
      (phase : s.phase = .watching snap (typeUrl :: todo)) :
      StreamStep w s .deliver
        { s with outbox := pushIfNew typeUrl snap s.outbox, phase := .watching snap todo }
  | finish (snap : Snapshot) (phase : s.phase = .watching snap []) :
      StreamStep w s .deliver { s with phase := .select }
  | close : StreamStep w s .close { s with phase := .closed }

theorem rotate_step {w w' : Control} {r r' : Rotate} {a : Act}
    (h : stepRotate w r a = some (w', r')) : RotateStep w r a w' r' := by
  unfold stepRotate at h
  split at h
  · cases h; exact .build _ _
  · cases h; exact .fail _
  · cases h; exact .publish _
  · contradiction

theorem handle_request_step (w : Control) {s : AdsStream} (r : DiscoveryRequest)
    (phase : s.phase = .select) : StreamStep w s (.request r) (handleRequest w s r) := by
  unfold handleRequest
  simp only
  split
  · rename_i isNack
    exact .note r phase (Or.inl isNack)
  · rename_i clean
    split
    · rename_i noNonce
      exact .subscribe r phase clean noNonce
    · rename_i answers
      exact .note r phase (Or.inr answers)

theorem stream_step {w : Control} {s s' : AdsStream} {a : Act}
    (h : stepStream w s s.phase a = some s') : StreamStep w s a s' := by
  unfold stepStream at h
  split at h
  · rename_i r phase
    cases h; exact handle_request_step w r phase
  · rename_i typeUrl snap phase
    cases h; exact .respond typeUrl snap phase
  · rename_i order phase
    split at h
    · rename_i guard
      cases h; exact .wake order phase guard.1 guard.2
    · contradiction
  · rename_i snap typeUrl todo phase
    cases h; exact .deliver snap typeUrl todo phase
  · rename_i snap phase
    cases h; exact .finish snap phase
  · cases h; exact .close
  · cases h; exact .close
  · cases h; exact .close
  · contradiction

theorem task_step {w w' : Control} {t t' : ControlTask} {a : Act}
    (h : stepTask w t a = some (w', t')) :
    (∃ r r', t = .rotate r ∧ t' = .rotate r' ∧ RotateStep w r a w' r') ∨
    (∃ s s', t = .stream s ∧ t' = .stream s' ∧ w' = w ∧ StreamStep w s a s') := by
  unfold stepTask at h
  split at h
  · obtain ⟨⟨w₁, r'⟩, moved, eq⟩ := Option.map_eq_some_iff.mp h
    cases eq
    exact Or.inl ⟨_, r', rfl, rfl, rotate_step moved⟩
  · obtain ⟨s', moved, eq⟩ := Option.map_eq_some_iff.mp h
    cases eq
    exact Or.inr ⟨_, s', rfl, rfl, rfl, stream_step moved⟩

/-- `rotate` as the source states it, run without a pause on what `self_signed` returns. -/
def rotate (w : Control) (cert : Option CertPem) : Control × Option String :=
  let (w, v) := nextVersion w
  match cert with
  | none => (w, none)
  | some cert => ({ w with advertised := w.advertised.send (.build v w.upstreamIp cert) }, some v)

theorem rotate_uninterrupted (st : State) (cert : CertPem) :
    ∃ st', exec server.next st [.spawn .rotate, .step st.tasks.length (.mint (some cert)),
        .step st.tasks.length .publish] = some st' ∧
      st'.shared = (rotate st.shared (some cert)).1 := by
  simp [exec, Program.next, server, spawn, stepTask, stepRotate, rotate, nextVersion]

/-- A failed rotation has used up a version and advertises what was advertised. -/
theorem failed_rotation_uninterrupted (st : State) :
    ∃ st', exec server.next st [.spawn .rotate, .step st.tasks.length (.mint none)] = some st' ∧
      st'.shared = (rotate st.shared none).1 ∧ st'.shared.advertised = st.shared.advertised := by
  simp [exec, Program.next, server, spawn, stepTask, stepRotate, rotate, nextVersion]

theorem rotate_advertises_certificate (w : Control) (cert : CertPem) :
    (rotate w (some cert)).1.advertised.value.byType.lookup tSecret =
      some [any tSecret (.secret (secret cert))] := build_secret _ _ cert

end TlsServer
