import XdsControlPlane.ExecutableRuns
import XdsControlPlane.SharedCells
import XdsControlPlane.DeltaStream

/-!
Chapter 4, `main.rs`: the bumps and the Delta streams as tasks over one
`Control`, one access to shared state in each step. A stream comes with the
client at its other end, which applies every response it is sent. Chapter 5 runs
the same loop, so that the loop is over the selection and the channel it watches.
-/
namespace DeltaServer
open ExecutableRuns SharedCells KeyedMaps EnvoyMessages DeltaSnapshots DeltaStream

/- The loop of a stream -/

inductive Phase where
  | select : Phase
  | answering : String → Snapshot → Phase
  | watching : Snapshot → List String → Phase
  | closed : Phase

/-- `outbox` is what was put on the outbound channel, latest first; `requests`
    are those taken, in order; `cache` is the client's. -/
structure AdsStream where
  receiver : Receiver
  vars : StreamVars
  phase : Phase
  outbox : List DeltaDiscoveryResponse
  requests : List DeltaDiscoveryRequest
  cache : Cache

inductive LoopAct where
  | request : DeltaDiscoveryRequest → LoopAct
  | respond : LoopAct
  | wake : List String → LoopAct
  | deliver : LoopAct
  | close : LoopAct

def Phase.sending : Phase → Option Snapshot
  | .answering _ snap => some snap
  | .watching snap _ => some snap
  | _ => none

def Phase.owed : Phase → List String
  | .answering typeUrl _ => [typeUrl]
  | .watching _ todo => todo
  | _ => []

def AdsStream.opened (advertised : Watch Snapshot) (cache : Cache) : AdsStream :=
  { receiver := advertised.subscribe
    vars := .opened
    phase := .select
    outbox := []
    requests := []
    cache := cache }

/-- One `send_delta`, and the client's receipt of what it sends. -/
def AdsStream.send (sel : Selection) (s : AdsStream) (typeUrl : String) (snap : Snapshot)
    (next : Phase) : AdsStream :=
  let (vars, resp) := sendDelta sel typeUrl snap s.vars
  { s with
    vars := vars
    outbox := resp.toList ++ s.outbox
    cache := s.cache.receive resp
    phase := next }

/-- The request arm up to its read of `advertised`. -/
def handleRequest (advertised : Watch Snapshot) (s : AdsStream) (r : DeltaDiscoveryRequest) :
    AdsStream :=
  if r.IsNack then { s with requests := s.requests ++ [r] }
  else
    { s with
      vars := s.vars.record r
      requests := s.requests ++ [r]
      phase := .answering r.typeUrl advertised.borrow }

def stepLoop (sel : Selection) (advertised : Watch Snapshot) (s : AdsStream) :
    Phase → LoopAct → Option AdsStream
  | .select, .request r => some (handleRequest advertised s r)
  | .answering typeUrl snap, .respond => some (s.send sel typeUrl snap .select)
  | .select, .wake order =>
    if s.receiver.seen ≠ advertised.stamp ∧ order.Perm s.vars.subs.keys then
      let (snap, receiver) := advertised.borrowAndUpdate
      some { s with receiver := receiver, phase := .watching snap order }
    else none
  | .watching snap (typeUrl :: todo), .deliver =>
    some (s.send sel typeUrl snap (.watching snap todo))
  | .watching _ [], .deliver => some { s with phase := .select }
  -- inbound end or error in select!, and a failed tx.send at either await
  | .select, .close => some { s with phase := .closed }
  | .answering _ _, .close => some { s with phase := .closed }
  | .watching _ _, .close => some { s with phase := .closed }
  | _, _ => none

inductive LoopStep (sel : Selection) (advertised : Watch Snapshot) (s : AdsStream) :
    LoopAct → AdsStream → Prop where
  | nack (r : DeltaDiscoveryRequest) (phase : s.phase = .select) (isNack : r.IsNack) :
      LoopStep sel advertised s (.request r) { s with requests := s.requests ++ [r] }
  | record (r : DeltaDiscoveryRequest) (phase : s.phase = .select) (clean : ¬ r.IsNack) :
      LoopStep sel advertised s (.request r)
        { s with
          vars := s.vars.record r
          requests := s.requests ++ [r]
          phase := .answering r.typeUrl advertised.value }
  | respond (typeUrl : String) (snap : Snapshot) (phase : s.phase = .answering typeUrl snap) :
      LoopStep sel advertised s .respond (s.send sel typeUrl snap .select)
  | wake (order : List String) (phase : s.phase = .select)
      (behind : s.receiver.seen ≠ advertised.stamp) (visits : order.Perm s.vars.subs.keys) :
      LoopStep sel advertised s (.wake order)
        { s with receiver := ⟨advertised.stamp⟩, phase := .watching advertised.value order }
  | deliver (snap : Snapshot) (typeUrl : String) (todo : List String)
      (phase : s.phase = .watching snap (typeUrl :: todo)) :
      LoopStep sel advertised s .deliver (s.send sel typeUrl snap (.watching snap todo))
  | finish (snap : Snapshot) (phase : s.phase = .watching snap []) :
      LoopStep sel advertised s .deliver { s with phase := .select }
  | close : LoopStep sel advertised s .close { s with phase := .closed }

theorem loop_step {sel : Selection} {advertised : Watch Snapshot} {s s' : AdsStream} {a : LoopAct}
    (h : stepLoop sel advertised s s.phase a = some s') : LoopStep sel advertised s a s' := by
  unfold stepLoop at h
  split at h
  · rename_i r phase
    simp only [handleRequest] at h
    split at h
    · rename_i isNack
      cases h; exact .nack r phase isNack
    · rename_i clean
      cases h; exact .record r phase clean
  · rename_i typeUrl snap phase
    cases h; exact .respond typeUrl snap phase
  · rename_i order phase
    split at h
    · rename_i guard
      cases h; exact .wake order phase guard.1 guard.2
    · contradiction
  · rename_i snap typeUrl todo phase
    cases h; exact .deliver snap typeUrl todo phase
  · rename_i snap phase
    cases h; exact .finish snap phase
  · cases h; exact .close
  · cases h; exact .close
  · cases h; exact .close
  · contradiction

/- The bumps and the streams -/

structure Control where
  advertised : Watch Snapshot
  upstreamIp : String
  routeVersion : UInt64

def startup (upstreamIp : String) : Control :=
  { advertised := .channel (.build 1 upstreamIp), upstreamIp := upstreamIp, routeVersion := 1 }

/-- A bump after its `fetch_add`, when it has built the snapshot to send. -/
inductive Bump where
  | numbered : Snapshot → Bump
  | done : Bump

inductive ControlTask where
  | bump : Bump → ControlTask
  | stream : AdsStream → ControlTask

/-- A client opens its stream with whatever it holds already. -/
inductive Call where
  | bump : Call
  | openStream : Cache → Call

inductive Act where
  | proceed : Act
  | request : DeltaDiscoveryRequest → Act
  | respond : Act
  | wake : List String → Act
  | deliver : Act
  | close : Act

def LoopAct.act : LoopAct → Act
  | .request r => .request r
  | .respond => .respond
  | .wake order => .wake order
  | .deliver => .deliver
  | .close => .close

def spawn (w : Control) : Call → Control × ControlTask
  | .bump =>
    let rv := fetchAddOne w.routeVersion
    ({ w with routeVersion := rv }, .bump (.numbered (.build rv w.upstreamIp)))
  | .openStream cache => (w, .stream (.opened w.advertised cache))

def stepBump (w : Control) : Bump → Option (Control × Bump)
  | .numbered snap => some ({ w with advertised := w.advertised.send snap }, .done)
  | .done => none

def stepStream (w : Control) (s : AdsStream) (phase : Phase) : Act → Option AdsStream
  | .proceed => none
  | .request r => stepLoop exactNames w.advertised s phase (.request r)
  | .respond => stepLoop exactNames w.advertised s phase .respond
  | .wake order => stepLoop exactNames w.advertised s phase (.wake order)
  | .deliver => stepLoop exactNames w.advertised s phase .deliver
  | .close => stepLoop exactNames w.advertised s phase .close

def stepTask (w : Control) : ControlTask → Act → Option (Control × ControlTask)
  | .bump b, .proceed => (stepBump w b).map fun r => (r.1, .bump r.2)
  | .bump _, _ => none
  | .stream s, a => (stepStream w s s.phase a).map fun s' => (w, .stream s')

def server : Program Control ControlTask Call Act := ⟨spawn, stepTask⟩

abbrev State := System Control ControlTask
abbrev Step := Event Call Act

def start (upstreamIp : String) : State := ⟨startup upstreamIp, []⟩

def StreamStep (w : Control) (s : AdsStream) (a : Act) (s' : AdsStream) : Prop :=
  ∃ b : LoopAct, a = b.act ∧ LoopStep exactNames w.advertised s b s'

theorem stream_step {w : Control} {s s' : AdsStream} {a : Act}
    (h : stepStream w s s.phase a = some s') : StreamStep w s a s' := by
  cases a with
  | proceed => cases h
  | request r => exact ⟨.request r, rfl, loop_step h⟩
  | respond => exact ⟨.respond, rfl, loop_step h⟩
  | wake order => exact ⟨.wake order, rfl, loop_step h⟩
  | deliver => exact ⟨.deliver, rfl, loop_step h⟩
  | close => exact ⟨.close, rfl, loop_step h⟩

/-- A send of `typeUrl` out of the snapshot in hand, with `next` left to do. -/
structure Pays (phase next : Phase) (typeUrl : String) (snap : Snapshot) : Prop where
  sending : phase.sending = some snap
  owes : typeUrl ∈ phase.owed
  nextSending : ∀ snap', next.sending = some snap' → snap' = snap
  nextOwed : ∀ t ∈ next.owed, t ∈ phase.owed
  paid : ∀ t ∈ phase.owed, t = typeUrl ∨ t ∈ next.owed

theorem respond_pays {phase : Phase} {typeUrl : String} {snap : Snapshot}
    (answering : phase = .answering typeUrl snap) : Pays phase .select typeUrl snap := by
  subst answering
  constructor <;> simp [Phase.sending, Phase.owed]

theorem deliver_pays {phase : Phase} {typeUrl : String} {snap : Snapshot} {todo : List String}
    (watching : phase = .watching snap (typeUrl :: todo)) :
    Pays phase (.watching snap todo) typeUrl snap := by
  subst watching
  constructor <;> simp +contextual [Phase.sending, Phase.owed, eq_comm]

theorem pays_open {phase next : Phase} {typeUrl : String} {snap : Snapshot}
    (pays : Pays phase next typeUrl snap) : phase ≠ .closed := by
  rintro rfl
  simpa [Phase.owed] using pays.owes

/-- A bump's one step is its send; no stream's step touches the shared state. -/
theorem task_step {w w' : Control} {t t' : ControlTask} {a : Act}
    (h : stepTask w t a = some (w', t')) :
    (∃ snap, t = .bump (.numbered snap) ∧ t' = .bump .done ∧ a = .proceed ∧
      w' = { w with advertised := w.advertised.send snap }) ∨
    (∃ s s', t = .stream s ∧ t' = .stream s' ∧ w' = w ∧ StreamStep w s a s') := by
  unfold stepTask at h
  split at h
  · rename_i b
    obtain ⟨⟨w₁, b'⟩, moved, eq⟩ := Option.map_eq_some_iff.mp h
    cases eq
    cases b with
    | numbered snap => cases moved; exact Or.inl ⟨snap, rfl, rfl, rfl, rfl⟩
    | done => cases moved
  · contradiction
  · obtain ⟨s', moved, eq⟩ := Option.map_eq_some_iff.mp h
    cases eq
    exact Or.inr ⟨_, s', rfl, rfl, rfl, stream_step moved⟩

/-- `bump` as the source states it, run without a pause. -/
def bump (w : Control) : Control × UInt64 :=
  let rv := fetchAddOne w.routeVersion
  let w := { w with routeVersion := rv }
  ({ w with advertised := w.advertised.send (.build rv w.upstreamIp) }, rv)

theorem bump_uninterrupted (st : State) :
    ∃ st', exec server.next st [.spawn .bump, .step st.tasks.length .proceed] = some st' ∧
      st'.shared = (bump st.shared).1 := by
  simp [exec, Program.next, server, spawn, stepTask, stepBump, bump]

end DeltaServer
