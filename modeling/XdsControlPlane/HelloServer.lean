import XdsControlPlane.ExecutableRuns
import XdsControlPlane.SotwSnapshots
import XdsControlPlane.SotwServer

/-!
Chapter 1, `main.rs`: one ADS stream in a closed loop with its client. The client
subscribes to a type once and answers each response with one request. Both
directions are FIFO; a full channel only makes the server take its next request
later, so the queues have no capacity here; a stream that closes ends its run.
The snapshot never changes.
-/
namespace HelloServer
open ExecutableRuns KeyedMaps EnvoyMessages SotwSnapshots
open SotwServer (DiscoveryRequest)

/-- `Snapshot::v1`, once `resolve_with_retry` has returned an address. -/
def v1 (upstreamIp : String) : Snapshot := .good "v1" upstreamIp

/-- One turn of the loop: the `sent_versions` it leaves and the response it sends. -/
def handle (snapshot : Snapshot) (sentVersions : HashMap String String) (req : DiscoveryRequest) :
    HashMap String String × Option DiscoveryResponse :=
  -- the NACK arm resends without a look at sent_versions, and without an entry in it
  if req.IsNack then (sentVersions, snapshot.buildResponse req.typeUrl)
  else if req.responseNonce ≠ "" ∧ req.versionInfo = snapshot.version then (sentVersions, none)
  else if sentVersions.lookup req.typeUrl = some snapshot.version then (sentVersions, none)
  else match snapshot.buildResponse req.typeUrl with
    | none => (sentVersions, none)
    | some resp => (sentVersions.insert req.typeUrl snapshot.version, some resp)

/-- A client's judgement of a response, by its content: the message of a NACK, if any. -/
abbrev Verdict := DiscoveryResponse → Option String

/-- The request that answers `resp`. An ACK echoes the version; a NACK names the
    version the client keeps. -/
def answerTo (verdict : Verdict) (resp : DiscoveryResponse) (keeps : String) : DiscoveryRequest :=
  match verdict resp with
  | none => ⟨resp.typeUrl, resp.versionInfo, resp.nonce, none⟩
  | some err => ⟨resp.typeUrl, keeps, resp.nonce, some err⟩

/-- `subscribed` and `sent` are history, latest first; the server reads neither. -/
structure Exchange where
  sentVersions : HashMap String String
  subscribed : List String
  requests : List DiscoveryRequest
  responses : List DiscoveryResponse
  sent : List DiscoveryResponse

def opened : Exchange := ⟨∅, [], [], [], []⟩

inductive Move where
  | subscribe : String → String → Move
  | serve : Move
  | answer : String → Move
  deriving DecidableEq, Repr

def Exchange.served (x : Exchange) (later : List DiscoveryRequest) :
    HashMap String String × Option DiscoveryResponse → Exchange
  | (sentVersions, none) => { x with sentVersions := sentVersions, requests := later }
  | (sentVersions, some resp) =>
    { x with
      sentVersions := sentVersions
      requests := later
      responses := x.responses ++ [resp]
      sent := resp :: x.sent }

def step (snapshot : Snapshot) (verdict : Verdict) (x : Exchange) : Move → Option Exchange
  | .subscribe typeUrl version =>
    if typeUrl ∈ x.subscribed then none
    else some { x with
      subscribed := typeUrl :: x.subscribed
      requests := x.requests ++ [⟨typeUrl, version, "", none⟩] }
  | .serve => match x.requests with
    | [] => none
    | req :: later => some (x.served later (handle snapshot x.sentVersions req))
  | .answer keeps => match x.responses with
    | [] => none
    | resp :: later => some { x with
      responses := later
      requests := x.requests ++ [answerTo verdict resp keeps] }

section Served
variable (x : Exchange) (later : List DiscoveryRequest)
  (outcome : HashMap String String × Option DiscoveryResponse)

theorem served_requests : (x.served later outcome).requests = later := by
  rcases outcome with ⟨_, _ | _⟩ <;> rfl

theorem served_subscribed : (x.served later outcome).subscribed = x.subscribed := by
  rcases outcome with ⟨_, _ | _⟩ <;> rfl

theorem served_counted :
    (x.served later outcome).responses.length + x.sent.length =
      x.responses.length + (x.served later outcome).sent.length := by
  rcases outcome with ⟨_, _ | _⟩
  · rfl
  · simp only [Exchange.served, List.length_append, List.length_cons, List.length_nil]
    omega

end Served

/- What a turn of the loop and a move of the exchange can do -/

inductive Turn (snapshot : Snapshot) (sentVersions : HashMap String String) (req : DiscoveryRequest) :
    HashMap String String × Option DiscoveryResponse → Prop where
  | quiet : Turn snapshot sentVersions req (sentVersions, none)
  | resend (resp : DiscoveryResponse) (isNack : req.IsNack)
      (built : snapshot.buildResponse req.typeUrl = some resp) :
      Turn snapshot sentVersions req (sentVersions, some resp)
  | first (resp : DiscoveryResponse) (notNack : ¬ req.IsNack)
      (unsent : sentVersions.lookup req.typeUrl ≠ some snapshot.version)
      (built : snapshot.buildResponse req.typeUrl = some resp) :
      Turn snapshot sentVersions req (sentVersions.insert req.typeUrl snapshot.version, some resp)

theorem handle_turn (snapshot : Snapshot) (sentVersions : HashMap String String)
    (req : DiscoveryRequest) :
    Turn snapshot sentVersions req (handle snapshot sentVersions req) := by
  unfold handle
  split
  · rename_i isNack
    cases built : snapshot.buildResponse req.typeUrl with
    | none => exact .quiet
    | some resp => exact .resend resp isNack built
  · rename_i notNack
    split
    · exact .quiet
    · split
      · exact .quiet
      · rename_i unsent
        cases built : snapshot.buildResponse req.typeUrl with
        | none => exact .quiet
        | some resp => exact .first resp notNack unsent built

section Exchanges
variable {snapshot : Snapshot} {verdict : Verdict}

theorem step_cases {x y : Exchange} {m : Move} (moved : step snapshot verdict x m = some y) :
    (∃ typeUrl version, m = .subscribe typeUrl version ∧ typeUrl ∉ x.subscribed ∧
      y = { x with
        subscribed := typeUrl :: x.subscribed
        requests := x.requests ++ [⟨typeUrl, version, "", none⟩] }) ∨
    (∃ req later, m = .serve ∧ x.requests = req :: later ∧
      y = x.served later (handle snapshot x.sentVersions req)) ∨
    (∃ resp later keeps, m = .answer keeps ∧ x.responses = resp :: later ∧
      y = { x with
        responses := later
        requests := x.requests ++ [answerTo verdict resp keeps] }) := by
  cases m with
  | subscribe typeUrl version =>
    simp only [step] at moved
    split at moved
    · contradiction
    · rename_i fresh
      exact Or.inl ⟨typeUrl, version, rfl, fresh, (Option.some.inj moved).symm⟩
  | serve =>
    simp only [step] at moved
    split at moved
    · contradiction
    · rename_i req later queued
      exact Or.inr (Or.inl ⟨req, later, rfl, queued, (Option.some.inj moved).symm⟩)
  | answer keeps =>
    simp only [step] at moved
    split at moved
    · contradiction
    · rename_i resp later queued
      exact Or.inr (Or.inr ⟨resp, later, keeps, rfl, queued, (Option.some.inj moved).symm⟩)

/-- Each subscribe costs one request to serve, each response an answer and the
    serving of that; what is still queued is owed. -/
theorem moves_counted {x y : Exchange} {ms : List Move}
    (run : exec (step snapshot verdict) x ms = some y) :
    ms.length + y.requests.length + 2 * y.responses.length +
        2 * x.subscribed.length + 2 * x.sent.length =
      x.requests.length + 2 * x.responses.length +
        2 * y.subscribed.length + 2 * y.sent.length := by
  induction ms generalizing x with
  | nil =>
    cases Option.some.inj run
    simp only [List.length_nil]
    omega
  | cons m ms ih =>
    obtain ⟨z, moved, rest⟩ := exec_cons_some.mp run
    have counted := ih rest
    rcases step_cases moved with ⟨_, _, rfl, _, rfl⟩ | ⟨req, later, rfl, queued, rfl⟩ |
      ⟨resp, later, _, rfl, queued, rfl⟩
    · simp only [List.length_cons, List.length_append, List.length_nil] at counted ⊢
      omega
    · have put := served_counted x later (handle snapshot x.sentVersions req)
      rw [served_requests, served_subscribed] at counted
      simp only [queued, List.length_cons]
      omega
    · simp only [queued, List.length_cons, List.length_append, List.length_nil] at counted ⊢
      omega

theorem subscribed_once {x : Exchange} {ms : List Move}
    (run : exec (step snapshot verdict) opened ms = some x) : x.subscribed.Nodup := by
  refine exec_invariant (I := fun x => x.subscribed.Nodup) ?_ run List.nodup_nil
  intro x m y distinct moved
  rcases step_cases moved with ⟨typeUrl, _, rfl, fresh, rfl⟩ | ⟨req, _, rfl, _, rfl⟩ |
    ⟨_, _, _, rfl, _, rfl⟩
  · exact List.nodup_cons.mpr ⟨fresh, distinct⟩
  · rwa [served_subscribed]
  · exact distinct

/- A client that accepts -/

def Accepts (snapshot : Snapshot) (verdict : Verdict) (typeUrl : String) : Prop :=
  ∀ resp, snapshot.buildResponse typeUrl = some resp → verdict resp = none

/-- No NACK is under way, and every response so far is in `sent_versions`. -/
structure Calm (snapshot : Snapshot) (x : Exchange) : Prop where
  asked : ∀ req ∈ x.requests, req.typeUrl ∈ x.subscribed ∧ ¬ req.IsNack
  answered : ∀ resp ∈ x.responses,
    resp.typeUrl ∈ x.subscribed ∧ snapshot.buildResponse resp.typeUrl = some resp
  once : (x.sent.map DiscoveryResponse.typeUrl).Nodup
  recorded : ∀ resp ∈ x.sent, resp.typeUrl ∈ x.subscribed ∧
    x.sentVersions.lookup resp.typeUrl = some snapshot.version

theorem calm_opened : Calm snapshot opened := by
  constructor <;> simp [opened]

theorem calm_subscribe {x : Exchange} (calm : Calm snapshot x) (typeUrl version : String) :
    Calm snapshot { x with
      subscribed := typeUrl :: x.subscribed
      requests := x.requests ++ [⟨typeUrl, version, "", none⟩] } := by
  constructor
  case asked =>
    intro req queued
    rcases List.mem_append.mp queued with old | new
    · exact ⟨List.mem_cons_of_mem _ (calm.asked req old).1, (calm.asked req old).2⟩
    · cases List.mem_singleton.mp new
      exact ⟨List.mem_cons_self, by simp⟩
  case answered =>
    intro resp queued
    exact ⟨List.mem_cons_of_mem _ (calm.answered resp queued).1, (calm.answered resp queued).2⟩
  case once => exact calm.once
  case recorded =>
    intro resp old
    exact ⟨List.mem_cons_of_mem _ (calm.recorded resp old).1, (calm.recorded resp old).2⟩

/-- Without a NACK the server sends a type at most once: `sent_versions` sees to it. -/
theorem calm_serve {x : Exchange} {req : DiscoveryRequest} {later : List DiscoveryRequest}
    (calm : Calm snapshot x) (queued : x.requests = req :: later) :
    Calm snapshot (x.served later (handle snapshot x.sentVersions req)) := by
  obtain ⟨known, clean⟩ := calm.asked req (queued ▸ List.mem_cons_self)
  have asked : ∀ r ∈ later, r.typeUrl ∈ x.subscribed ∧ ¬ r.IsNack := by
    intro r waits
    exact calm.asked r (queued ▸ List.mem_cons_of_mem req waits)
  have turn := handle_turn snapshot x.sentVersions req
  generalize handle snapshot x.sentVersions req = outcome at turn
  cases turn with
  | quiet => exact ⟨asked, calm.answered, calm.once, calm.recorded⟩
  | resend resp isNack built => exact absurd isNack clean
  | first resp notNack unsent built =>
    have named := (build_response_fields built).1
    constructor
    case asked => exact asked
    case answered =>
      intro r sent
      rcases List.mem_append.mp sent with old | new
      · exact calm.answered r old
      · cases List.mem_singleton.mp new
        rw [named]
        exact ⟨known, built⟩
    case once =>
      refine List.nodup_cons.mpr ⟨?_, calm.once⟩
      intro again
      obtain ⟨r, old, same⟩ := List.mem_map.mp again
      apply unsent
      rw [← named, ← same]
      exact (calm.recorded r old).2
    case recorded =>
      intro r sent
      simp only [Exchange.served, lookup_insert]
      rcases List.mem_cons.mp sent with rfl | old
      · exact ⟨named ▸ known, if_pos named⟩
      · obtain ⟨asked, held⟩ := calm.recorded r old
        refine ⟨asked, ?_⟩
        split
        · rfl
        · exact held

theorem calm_answer {x : Exchange} {resp : DiscoveryResponse} {later : List DiscoveryResponse}
    (calm : Calm snapshot x) (accepts : ∀ t ∈ x.subscribed, Accepts snapshot verdict t)
    (queued : x.responses = resp :: later) (keeps : String) :
    Calm snapshot { x with
      responses := later
      requests := x.requests ++ [answerTo verdict resp keeps] } := by
  obtain ⟨known, built⟩ := calm.answered resp (queued ▸ List.mem_cons_self)
  have accepted : verdict resp = none := accepts _ known resp built
  constructor
  case asked =>
    intro req sent
    rcases List.mem_append.mp sent with old | new
    · exact calm.asked req old
    · rw [List.mem_singleton.mp new, answerTo, accepted]
      exact ⟨known, by simp⟩
  case answered =>
    intro r waits
    exact calm.answered r (queued ▸ List.mem_cons_of_mem resp waits)
  case once => exact calm.once
  case recorded => exact calm.recorded

theorem calm_step {x y : Exchange} {m : Move}
    (calm : (∀ t ∈ x.subscribed, Accepts snapshot verdict t) → Calm snapshot x)
    (moved : step snapshot verdict x m = some y)
    (accepts : ∀ t ∈ y.subscribed, Accepts snapshot verdict t) : Calm snapshot y := by
  rcases step_cases moved with ⟨typeUrl, version, rfl, _, rfl⟩ | ⟨req, later, rfl, queued, rfl⟩ |
    ⟨resp, later, keeps, rfl, queued, rfl⟩
  · exact calm_subscribe (calm fun t old => accepts t (List.mem_cons_of_mem typeUrl old)) _ _
  · rw [served_subscribed] at accepts
    exact calm_serve (calm accepts) queued
  · exact calm_answer (calm accepts) accepts queued keeps

theorem calm_run {x : Exchange} {ms : List Move}
    (run : exec (step snapshot verdict) opened ms = some x)
    (accepts : ∀ t ∈ x.subscribed, Accepts snapshot verdict t) : Calm snapshot x := by
  refine exec_invariant (I := fun x => (∀ t ∈ x.subscribed, Accepts snapshot verdict t) →
    Calm snapshot x) ?_ run (fun _ => calm_opened) accepts
  intro x m y calm moved
  exact calm_step calm moved

theorem sent_at_most_subscribed {x : Exchange} (calm : Calm snapshot x) :
    x.sent.length ≤ x.subscribed.length := by
  have within : x.sent.map DiscoveryResponse.typeUrl ⊆ x.subscribed := by
    intro t sent
    obtain ⟨resp, member, rfl⟩ := List.mem_map.mp sent
    exact (calm.recorded resp member).1
  have shorter := (List.subperm_of_subset calm.once within).length_le
  rwa [List.length_map] at shorter

/- A client that rejects -/

def rejecting (snapshot : Snapshot) (resp : DiscoveryResponse) (rounds : Nat) : Exchange :=
  { sentVersions := AList.insert resp.typeUrl snapshot.version ∅
    subscribed := [resp.typeUrl]
    requests := []
    responses := [resp]
    sent := List.replicate (rounds + 1) resp }

def nacks : Nat → List Move
  | 0 => []
  | rounds + 1 => .answer "" :: .serve :: nacks rounds

theorem handle_nack {req : DiscoveryRequest} (isNack : req.IsNack)
    (sentVersions : HashMap String String) :
    handle snapshot sentVersions req = (sentVersions, snapshot.buildResponse req.typeUrl) :=
  if_pos isNack

theorem handle_subscribe {sentVersions : HashMap String String} {req : DiscoveryRequest}
    {resp : DiscoveryResponse} (subscribes : req.IsSubscribe)
    (unsent : sentVersions.lookup req.typeUrl = none)
    (built : snapshot.buildResponse req.typeUrl = some resp) :
    handle snapshot sentVersions req =
      (sentVersions.insert req.typeUrl snapshot.version, some resp) := by
  simp [handle, subscribes.1, subscribes.2, unsent, built]

theorem reject_start {resp : DiscoveryResponse}
    (built : snapshot.buildResponse resp.typeUrl = some resp) :
    exec (step snapshot verdict) opened [.subscribe resp.typeUrl "", .serve] =
      some (rejecting snapshot resp 0) := by
  have first : handle snapshot ∅ ⟨resp.typeUrl, "", "", none⟩ =
      (AList.insert resp.typeUrl snapshot.version ∅, some resp) :=
    handle_subscribe ⟨rfl, rfl⟩ (AList.lookup_empty _) built
  simp only [exec, step, opened, List.not_mem_nil, if_false, List.nil_append, Option.bind_some,
    first]
  rfl

theorem reject_round {resp : DiscoveryResponse} {err : String}
    (built : snapshot.buildResponse resp.typeUrl = some resp) (rejected : verdict resp = some err)
    (rounds : Nat) :
    exec (step snapshot verdict) (rejecting snapshot resp rounds) [.answer "", .serve] =
      some (rejecting snapshot resp (rounds + 1)) := by
  have nack : ∀ sentVersions, handle snapshot sentVersions ⟨resp.typeUrl, "", resp.nonce, some err⟩ =
      (sentVersions, snapshot.buildResponse resp.typeUrl) := handle_nack rfl
  simp only [exec, step, rejecting, answerTo, rejected, List.nil_append, Option.bind_some, nack,
    built]
  rfl

theorem reject_rounds {resp : DiscoveryResponse} {err : String}
    (built : snapshot.buildResponse resp.typeUrl = some resp) (rejected : verdict resp = some err)
    (before rounds : Nat) :
    exec (step snapshot verdict) (rejecting snapshot resp before) (nacks rounds) =
      some (rejecting snapshot resp (before + rounds)) := by
  induction rounds generalizing before with
  | zero => rfl
  | succ rounds ih =>
    have first := reject_round built rejected before
    have whole := exec_append_some.mpr ⟨_, first, ih (before + 1)⟩
    rwa [Nat.add_right_comm] at whole

theorem reject_run {resp : DiscoveryResponse} {err : String}
    (built : snapshot.buildResponse resp.typeUrl = some resp) (rejected : verdict resp = some err)
    (rounds : Nat) :
    exec (step snapshot verdict) opened
        ([.subscribe resp.typeUrl "", .serve] ++ nacks rounds) =
      some (rejecting snapshot resp rounds) := by
  have later := reject_rounds built rejected 0 rounds
  rw [Nat.zero_add] at later
  exact exec_append_some.mpr ⟨_, reject_start built, later⟩

end Exchanges

/-- A client that accepts what it subscribes to gets one response a type, and the
    exchange stops. With a response it rejects there is no bound at all: the
    server answers each NACK with the same response. -/
theorem exchange_bounded_iff_accepted (snapshot : Snapshot) (verdict : Verdict) :
    (∀ ms x, exec (step snapshot verdict) opened ms = some x →
      (∀ t ∈ x.subscribed, Accepts snapshot verdict t) →
      x.sent.length ≤ x.subscribed.length ∧ ms.length ≤ 4 * x.subscribed.length) ∧
    ∀ types : List String,
      (∃ bound, ∀ ms x, exec (step snapshot verdict) opened ms = some x →
        (∀ t ∈ x.subscribed, t ∈ types) → x.sent.length ≤ bound) ↔
      ∀ t ∈ types, Accepts snapshot verdict t := by
  have bounded : ∀ ms x, exec (step snapshot verdict) opened ms = some x →
      (∀ t ∈ x.subscribed, Accepts snapshot verdict t) →
      x.sent.length ≤ x.subscribed.length := by
    intro ms x run accepts
    exact sent_at_most_subscribed (calm_run run accepts)
  constructor
  · intro ms x run accepts
    have few := bounded ms x run accepts
    have counted := moves_counted run
    simp only [opened, List.length_nil] at counted
    exact ⟨few, by omega⟩
  · intro types
    constructor
    · rintro ⟨bound, all⟩ t listed resp built
      cases rejected : verdict resp with
      | none => rfl
      | some err =>
        have named := (build_response_fields built).1
        rw [← named] at built listed
        have run := reject_run built rejected bound
        have most := all _ _ run (by simpa [rejecting] using listed)
        simp only [rejecting, List.length_replicate] at most
        omega
    · intro accepts
      refine ⟨types.length, fun ms x run within => ?_⟩
      have few := bounded ms x run fun t asked => accepts t (within t asked)
      have distinct := (List.subperm_of_subset (subscribed_once run) within).length_le
      omega

theorem exchange_bounded_for_two_types :
    ∃ x, exec (step (v1 "10.0.0.1") fun _ => none) opened
        [.subscribe tListener "", .subscribe tRoute "", .serve, .answer "", .serve, .serve,
          .answer "", .serve] = some x ∧
      x.sent.length ≤ x.subscribed.length ∧ 8 ≤ 4 * x.subscribed.length ∧
      ∃ bound, ∀ ms y, exec (step (v1 "10.0.0.1") fun _ => none) opened ms = some y →
        (∀ t ∈ y.subscribed, t ∈ [tListener, tRoute]) → y.sent.length ≤ bound := by
  have accepts : ∀ t, Accepts (v1 "10.0.0.1") (fun _ => none) t := fun _ _ _ => rfl
  have bounded := exchange_bounded_iff_accepted (v1 "10.0.0.1") fun _ => none
  obtain ⟨x, run⟩ : ∃ x, exec (step (v1 "10.0.0.1") fun _ => none) opened
      [.subscribe tListener "", .subscribe tRoute "", .serve, .answer "", .serve, .serve,
        .answer "", .serve] = some x := ⟨_, rfl⟩
  have here := bounded.1 _ x run fun t _ => accepts t
  exact ⟨x, run, here.1, here.2, (bounded.2 _).mpr fun t _ => accepts t⟩

def addressInUse : String := "cannot bind '0.0.0.0:10000': Address already in use"

def portTaken : Verdict := fun resp =>
  if resp.typeUrl = tListener then some addressInUse else none

theorem nacks_are_answered_forever :
    ¬ ∃ bound : Nat → Nat, ∀ ms x,
      exec (step (v1 "10.0.0.1") portTaken) opened ms = some x →
      x.sent.length ≤ bound x.subscribed.length := by
  rintro ⟨bound, all⟩
  have built : (v1 "10.0.0.1").buildResponse tListener =
      some ⟨"v1", [any tListener (.listener (listener false))], false, tListener, "lds-v1"⟩ := by
    decide
  have rejected : portTaken ⟨"v1", [any tListener (.listener (listener false))], false, tListener,
      "lds-v1"⟩ = some addressInUse := if_pos rfl
  have most := all _ _ (reject_run built rejected (bound 1))
  simp only [rejecting, List.length_replicate, List.length_singleton] at most
  omega

end HelloServer
