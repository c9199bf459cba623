import XdsControlPlane.OrcaServer
import XdsControlPlane.SotwServer

/-!
Chapter 6, `main.rs`, the whole control plane: the ORCA client loops, which connect,
read reports and reconnect for ever, beside the ADS streams, which serve what
`observe` publishes. The snapshot, the outbox and `push_if_new` are Chapter 2's.
Leaving out connections and streams leaves a run of the bare ORCA clients.
-/
namespace OrcaSystem
open ExecutableRuns SharedCells KeyedMaps EnvoyMessages SotwSnapshots OrcaServer
open SotwServer (DiscoveryRequest Outbox pushIfNew)

/-- What `run_orca_client` reads of a report. -/
structure OrcaLoadReport where
  cpuUtilization : ℚ
  applicationUtilization : ℚ
  deriving DecidableEq, Repr

def OrcaLoadReport.util (r : OrcaLoadReport) : ℚ :=
  if 0 < r.applicationUtilization then r.applicationUtilization else r.cpuUtilization

/-- What an upstream reports: its fixed utilization, in both fields. -/
def upstreamReport (utilization : ℚ) : OrcaLoadReport := ⟨utilization, utilization⟩

/-- Before `connect`, before `stream_core_metrics`, reading messages with the last one
    somewhere in `observe`, or in the sleep before the next attempt. -/
inductive LoopPhase where
  | connecting : LoopPhase
  | calling : LoopPhase
  | reading : Phase → LoopPhase
  | sleeping : LoopPhase

structure OrcaLoop where
  host : String
  phase : LoopPhase

inductive StreamPhase where
  | select : StreamPhase
  | subscribing : String → Snapshot → StreamPhase
  | watching : Snapshot → List String → StreamPhase
  | closed : StreamPhase

structure AdsStream where
  receiver : Receiver
  subscribed : HashSet String
  outbox : Outbox
  phase : StreamPhase

inductive SystemTask where
  | orca : OrcaLoop → SystemTask
  | stream : AdsStream → SystemTask

/-- The loops are started by `main`; connections open streams. -/
inductive Call where
  | openStream : Call
  deriving DecidableEq, Repr

inductive SystemAct where
  | connect : Bool → SystemAct
  | call : Bool → SystemAct
  | message : Except String (Option OrcaLoadReport) → SystemAct
  | observe : OrcaServer.Act → SystemAct
  | wakeUp : SystemAct
  | request : DiscoveryRequest → SystemAct
  | respond : SystemAct
  | wake : List String → SystemAct
  | deliver : SystemAct
  | close : SystemAct

def OrcaLoop.client (l : OrcaLoop) : OrcaClient :=
  match l.phase with
  | .reading p => ⟨l.host, p⟩
  | _ => ⟨l.host, .idle⟩

def OrcaLoop.observing (l : OrcaLoop) (r : Control × OrcaClient) : Control × OrcaLoop :=
  (r.1, { l with phase := .reading r.2.phase })

/-- The steps of `observe` after the reading is stored. -/
def Continues : OrcaServer.Act → Prop
  | .report _ => False
  | _ => True

instance : DecidablePred Continues := fun a => by
  cases a <;> unfold Continues <;> infer_instance

def stepLoop (w : Control) (l : OrcaLoop) : LoopPhase → SystemAct → Option (Control × OrcaLoop)
  | .connecting, .connect true => some (w, { l with phase := .calling })
  | .connecting, .connect false => some (w, { l with phase := .sleeping })
  | .calling, .call true => some (w, { l with phase := .reading .idle })
  | .calling, .call false => some (w, { l with phase := .sleeping })
  | .reading .idle, .message (.ok (some report)) =>
    (stepClient w l.client .idle (.report report.util)).map l.observing
  | .reading .idle, .message (.ok none) => some (w, { l with phase := .sleeping })
  | .reading .idle, .message (.error _) => some (w, { l with phase := .sleeping })
  | .reading p, .observe a =>
    if Continues a then (stepClient w l.client p a).map l.observing else none
  | .sleeping, .wakeUp => some (w, { l with phase := .connecting })
  | _, _ => none

def AdsStream.opened (w : Control) : AdsStream :=
  { receiver := w.advertised.subscribe, subscribed := .empty, outbox := ⟨∅, []⟩, phase := .select }

/-- The request arm up to its read of `advertised`, if it reads it. -/
def handleRequest (w : Control) (s : AdsStream) (r : DiscoveryRequest) : AdsStream :=
  let s := { s with subscribed := s.subscribed.insert r.typeUrl }
  if r.IsNack then s
  else if r.responseNonce = "" then { s with phase := .subscribing r.typeUrl w.advertised.borrow }
  else s

def stepStream (w : Control) (s : AdsStream) : StreamPhase → SystemAct → Option AdsStream
  | .select, .request r => some (handleRequest w s r)
  | .subscribing typeUrl snap, .respond =>
    some { s with outbox := pushIfNew typeUrl snap s.outbox, phase := .select }
  | .select, .wake order =>
    if s.receiver.seen ≠ w.advertised.stamp ∧ order.Perm s.subscribed.elems then
      let (snap, receiver) := w.advertised.borrowAndUpdate
      some { s with receiver := receiver, phase := .watching snap order }
    else none
  | .watching snap (typeUrl :: todo), .deliver =>
    some { s with outbox := pushIfNew typeUrl snap s.outbox, phase := .watching snap todo }
  | .watching _ [], .deliver => some { s with phase := .select }
  -- inbound end or error in select!, and a failed tx.send at either await
  | .select, .close => some { s with phase := .closed }
  | .subscribing _ _, .close => some { s with phase := .closed }
  | .watching _ _, .close => some { s with phase := .closed }
  | _, _ => none

def stepTask (w : Control) : SystemTask → SystemAct → Option (Control × SystemTask)
  | .orca l, a => (stepLoop w l l.phase a).map fun r => (r.1, .orca r.2)
  | .stream s, a => (stepStream w s s.phase a).map fun s' => (w, .stream s')

def spawn (w : Control) : Call → Control × SystemTask
  | .openStream => (w, .stream (.opened w))

def system : Program Control SystemTask Call SystemAct := ⟨spawn, stepTask⟩

abbrev SystemState := System Control SystemTask
abbrev SystemStep := Event Call SystemAct

def boot (backends : List (String × String)) : SystemState :=
  ⟨startup backends, backends.map fun b => .orca ⟨b.1, .connecting⟩⟩

/- What each step does, guards included. -/

/-- A loop connects or disconnects, or takes one step of `observe`. -/
inductive LoopStep (w : Control) (l : OrcaLoop) : SystemAct → Control → OrcaLoop → Prop where
  | move (a : SystemAct) (p : LoopPhase) (rests : l.client.phase = .idle)
      (lands : (⟨l.host, p⟩ : OrcaLoop).client.phase = .idle)
      (silent : (∀ r, a ≠ .message (.ok (some r))) ∧ ∀ b, a ≠ .observe b) :
      LoopStep w l a w { l with phase := p }
  | report (r : OrcaLoadReport) (w' : Control) (c : OrcaClient) (phase : l.phase = .reading .idle)
      (step : stepClient w l.client l.client.phase (.report r.util) = some (w', c)) :
      LoopStep w l (.message (.ok (some r))) w' { l with phase := .reading c.phase }
  | observe (a : OrcaServer.Act) (p : Phase) (w' : Control) (c : OrcaClient)
      (phase : l.phase = .reading p) (continues : Continues a)
      (step : stepClient w l.client l.client.phase a = some (w', c)) :
      LoopStep w l (.observe a) w' { l with phase := .reading c.phase }

inductive StreamStep (w : Control) (s : AdsStream) : SystemAct → AdsStream → Prop where
  | note (r : DiscoveryRequest) (phase : s.phase = .select) (quiet : r.IsNack ∨ r.responseNonce ≠ "") :
      StreamStep w s (.request r) { s with subscribed := s.subscribed.insert r.typeUrl }
  | subscribe (r : DiscoveryRequest) (phase : s.phase = .select) (clean : ¬ r.IsNack)
      (noNonce : r.responseNonce = "") :
      StreamStep w s (.request r)
        { s with
          subscribed := s.subscribed.insert r.typeUrl
          phase := .subscribing r.typeUrl w.advertised.value }
  | respond (typeUrl : String) (snap : Snapshot) (phase : s.phase = .subscribing typeUrl snap) :
      StreamStep w s .respond { s with outbox := pushIfNew typeUrl snap s.outbox, phase := .select }
  | wake (order : List String) (phase : s.phase = .select)
      (behind : s.receiver.seen ≠ w.advertised.stamp) (visits : order.Perm s.subscribed.elems) :
      StreamStep w s (.wake order)
        { s with receiver := ⟨w.advertised.stamp⟩, phase := .watching w.advertised.value order }
  | deliver (snap : Snapshot) (typeUrl : String) (todo : List String)
      (phase : s.phase = .watching snap (typeUrl :: todo)) :
      StreamStep w s .deliver
        { s with outbox := pushIfNew typeUrl snap s.outbox, phase := .watching snap todo }
  | finish (snap : Snapshot) (phase : s.phase = .watching snap []) :
      StreamStep w s .deliver { s with phase := .select }
  | close : StreamStep w s .close { s with phase := .closed }

theorem loop_step {w w' : Control} {l l' : OrcaLoop} {a : SystemAct}
    (h : stepLoop w l l.phase a = some (w', l')) : LoopStep w l a w' l' := by
  obtain ⟨host, phase⟩ := l
  cases phase with
  | connecting =>
    cases a with
    | connect ok =>
      cases ok <;> cases h <;> exact .move _ _ rfl rfl ⟨by simp, by simp⟩
    | _ => cases h
  | calling =>
    cases a with
    | call ok => cases ok <;> cases h <;> exact .move _ _ rfl rfl ⟨by simp, by simp⟩
    | _ => cases h
  | reading p =>
    cases a with
    | message m =>
      cases p with
      | idle =>
        match m with
        | .error e => cases h; exact .move _ _ rfl rfl ⟨by simp, by simp⟩
        | .ok none => cases h; exact .move _ _ rfl rfl ⟨by simp, by simp⟩
        | .ok (some report) =>
          obtain ⟨⟨w₁, c⟩, moved, eq⟩ := Option.map_eq_some_iff.mp h
          cases eq
          exact .report report w₁ c rfl moved
      | _ => cases h
    | observe a =>
      have observed : (if Continues a then
          (stepClient w ⟨host, p⟩ p a).map (OrcaLoop.observing ⟨host, .reading p⟩) else none) =
            some (w', l') := by
        cases p <;> exact h
      split at observed
      · rename_i continues
        obtain ⟨⟨w₁, c⟩, moved, eq⟩ := Option.map_eq_some_iff.mp observed
        cases eq
        exact .observe a p w₁ c rfl continues moved
      · contradiction
    | _ => cases p <;> cases h
  | sleeping =>
    cases a with
    | wakeUp => cases h; exact .move _ _ rfl rfl ⟨by simp, by simp⟩
    | _ => cases h

theorem handle_request_step (w : Control) {s : AdsStream} (r : DiscoveryRequest)
    (phase : s.phase = .select) : StreamStep w s (.request r) (handleRequest w s r) := by
  unfold handleRequest
  simp only
  split
  · rename_i isNack
    exact .note r phase (Or.inl isNack)
  · rename_i clean
    split
    · rename_i noNonce
      exact .subscribe r phase clean noNonce
    · rename_i answers
      exact .note r phase (Or.inr answers)

theorem stream_step {w : Control} {s s' : AdsStream} {a : SystemAct}
    (h : stepStream w s s.phase a = some s') : StreamStep w s a s' := by
  unfold stepStream at h
  split at h
  · rename_i r phase
    cases h; exact handle_request_step w r phase
  · rename_i typeUrl snap phase
    cases h; exact .respond typeUrl snap phase
  · rename_i order phase
    split at h
    · rename_i guard
      cases h; exact .wake order phase guard.1 guard.2
    · contradiction
  · rename_i snap typeUrl todo phase
    cases h; exact .deliver snap typeUrl todo phase
  · rename_i snap phase
    cases h; exact .finish snap phase
  · cases h; exact .close
  · cases h; exact .close
  · cases h; exact .close
  · contradiction

theorem task_step {w w' : Control} {t t' : SystemTask} {a : SystemAct}
    (h : stepTask w t a = some (w', t')) :
    (∃ l l', t = .orca l ∧ t' = .orca l' ∧ LoopStep w l a w' l') ∨
    (∃ s s', t = .stream s ∧ t' = .stream s' ∧ w' = w ∧ StreamStep w s a s') := by
  unfold stepTask at h
  split at h
  · obtain ⟨⟨w₁, l'⟩, moved, eq⟩ := Option.map_eq_some_iff.mp h
    cases eq
    exact Or.inl ⟨_, l', rfl, rfl, loop_step moved⟩
  · obtain ⟨s', moved, eq⟩ := Option.map_eq_some_iff.mp h
    cases eq
    exact Or.inr ⟨_, s', rfl, rfl, rfl, stream_step moved⟩

end OrcaSystem
