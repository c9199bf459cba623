import XdsControlPlane.ExecutableRuns
import XdsControlPlane.SharedCells
import XdsControlPlane.SotwSnapshots

/-!
Chapter 6: one ORCA client for each backend, each reporting through `observe`.
Storing a reading, computing the weights from all readings, taking a version
and publishing are four accesses to shared state. Utilizations are rationals.
The snapshot type is Chapter 2's; only the endpoints' weights are new.
-/
namespace OrcaServer
open ExecutableRuns SharedCells KeyedMaps EnvoyMessages SotwSnapshots

structure Weighted where
  ip : String
  weight : Nat
  deriving DecidableEq, Repr

def endpoints (weighted : List Weighted) : ClusterLoadAssignment :=
  endpointsWith clusterName (weighted.map fun w => ⟨⟨w.ip, upstreamPort⟩, some w.weight⟩)

def build (version : String) (endpointsIn : List Weighted) : Snapshot :=
  { version := version
    byType := insertAll ∅
      [(tListener, [any tListener (.listener (listenerWith "ingress_http" listenerName routeName))]),
       (tRoute, [any tRoute (.routeConfiguration (routeConfigWith routeName clusterName []))]),
       (tCluster, [any tCluster (.cluster (clusterWith clusterName ""))]),
       (tEndpoint, [any tEndpoint (.clusterLoadAssignment (endpoints endpointsIn))])] }

/-- `f64::clamp`, without its panic on an empty range. -/
def clamp (x lo hi : ℚ) : ℚ := if x < lo then lo else if hi < x then hi else x

/-- `f64::round`: to the nearest integer, halves away from zero. -/
def roundAway (x : ℚ) : Int := if 0 ≤ x then ⌊x + 1 / 2⌋ else -⌊-x + 1 / 2⌋

/-- `as u32` saturates. -/
def asU32 (z : Int) : Nat := min z.toNat (2 ^ 32 - 1)

def weightFromUtil (util : ℚ) : Nat :=
  let u := clamp util 0 (99 / 100)
  max (asU32 (roundAway ((1 - u) * 1000))) 1

structure Control where
  advertised : Watch Snapshot
  backends : List (String × String)
  util : HashMap String ℚ
  version : UInt64

def utilOf (util : HashMap String ℚ) (host : String) : ℚ := entryOr util host (1 / 2)

/-- The first half of `recompute_and_push`: the weights by the readings at hand. -/
def recompute (backends : List (String × String)) (util : HashMap String ℚ) : List Weighted :=
  backends.map fun b => ⟨b.2, weightFromUtil (utilOf util b.1)⟩

/-- Where `observe` stands. `seen` keeps the readings that the weights come from;
    no step reads it. -/
inductive Phase where
  | idle : Phase
  | stored : Phase
  | computed (seen : HashMap String ℚ) (weighted : List Weighted) : Phase
  | numbered (seen : HashMap String ℚ) (version : String) (weighted : List Weighted) : Phase

structure OrcaClient where
  host : String
  phase : Phase

inductive Act where
  | report : ℚ → Act
  | read : Act
  | number : Act
  | publish : Act

/-- A reading that moved by less than 0.001 is not recorded. -/
def moved (util : HashMap String ℚ) (host : String) (u : ℚ) : Bool :=
  match util.lookup host with
  | some p => ¬ |p - u| < 1 / 1000
  | none => true

def stepClient (w : Control) (c : OrcaClient) : Phase → Act → Option (Control × OrcaClient)
  | .idle, .report u =>
    if moved w.util c.host u then
      some ({ w with util := w.util.insert c.host u }, { c with phase := .stored })
    else some (w, c)
  | .stored, .read =>
    some (w, { c with phase := .computed w.util (recompute w.backends w.util) })
  | .computed seen weighted, .number =>
    let n := fetchAddOne w.version
    some ({ w with version := n }, { c with phase := .numbered seen (versionLabel n) weighted })
  | .numbered _ version weighted, .publish =>
    some ({ w with advertised := w.advertised.send (build version weighted) },
      { c with phase := .idle })
  | _, _ => none

/-- The ORCA clients are all started by `main`; none is added later. -/
def server : Program Control OrcaClient Empty Act where
  spawn _ a := nomatch a
  step w c a := stepClient w c c.phase a

abbrev State := System Control OrcaClient
abbrev Step := Event Empty Act

def startup (backends : List (String × String)) : Control :=
  { advertised := .channel (build "v1" (backends.map fun b => ⟨b.2, weightFromUtil (1 / 2)⟩))
    backends := backends
    util := ∅
    version := 1 }

def start (backends : List (String × String)) : State :=
  ⟨startup backends, backends.map fun b => ⟨b.1, .idle⟩⟩

inductive ClientStep (w : Control) (c : OrcaClient) : Act → Control → OrcaClient → Prop where
  | unmoved (u : ℚ) (phase : c.phase = .idle) (same : ¬ moved w.util c.host u) :
      ClientStep w c (.report u) w c
  | store (u : ℚ) (phase : c.phase = .idle) (new : moved w.util c.host u) :
      ClientStep w c (.report u) { w with util := w.util.insert c.host u } { c with phase := .stored }
  | compute (phase : c.phase = .stored) :
      ClientStep w c .read w { c with phase := .computed w.util (recompute w.backends w.util) }
  | number (seen : HashMap String ℚ) (weighted : List Weighted)
      (phase : c.phase = .computed seen weighted) :
      ClientStep w c .number { w with version := fetchAddOne w.version }
        { c with phase := .numbered seen (versionLabel (fetchAddOne w.version)) weighted }
  | publish (seen : HashMap String ℚ) (version : String) (weighted : List Weighted)
      (phase : c.phase = .numbered seen version weighted) :
      ClientStep w c .publish { w with advertised := w.advertised.send (build version weighted) }
        { c with phase := .idle }

theorem client_step {w w' : Control} {c c' : OrcaClient} {a : Act}
    (h : stepClient w c c.phase a = some (w', c')) : ClientStep w c a w' c' := by
  unfold stepClient at h
  split at h
  · rename_i u phase
    split at h
    · rename_i new
      cases h; exact .store u phase new
    · rename_i same
      cases h; exact .unmoved u phase same
  · rename_i phase
    cases h; exact .compute phase
  · rename_i seen weighted phase
    cases h; exact .number seen weighted phase
  · rename_i seen version weighted phase
    cases h; exact .publish seen version weighted phase
  · contradiction

/-- `observe` and `recompute_and_push` as the source states them, run without a pause. -/
def recomputeAndPush (w : Control) : Control :=
  let weighted := recompute w.backends w.util
  let n := fetchAddOne w.version
  { w with
    version := n
    advertised := w.advertised.send (build (versionLabel n) weighted) }

def observe (w : Control) (host : String) (u : ℚ) : Control :=
  if moved w.util host u then recomputeAndPush { w with util := w.util.insert host u } else w

def observeSteps (w : Control) (host : String) (u : ℚ) : List Act :=
  if moved w.util host u then [.report u, .read, .number, .publish] else [.report u]

theorem observe_alone {w : Control} {c : OrcaClient} (idle : c.phase = .idle) (u : ℚ) :
    exec (fun r a => server.step r.1 r.2 a) (w, c) (observeSteps w c.host u) =
      some (observe w c.host u, c) := by
  obtain ⟨host, phase⟩ := c
  subst idle
  unfold observeSteps observe
  split
  · rename_i new
    simp only [exec, server, stepClient, new, if_true, Option.bind_some, recomputeAndPush]
  · rename_i same
    simp only [exec, server, stepClient, same, Bool.false_eq_true, if_false, Option.bind_some]

theorem observe_uninterrupted {st : State} {i : Nat} {c : OrcaClient}
    (found : st.tasks[i]? = some c) (idle : c.phase = .idle) (u : ℚ) :
    exec server.next st ((observeSteps st.shared c.host u).map (.step i)) =
      some ⟨observe st.shared c.host u, st.tasks⟩ := by
  rw [exec_alone found (observe_alone idle u)]
  obtain ⟨inside, rfl⟩ := List.getElem?_eq_some_iff.mp found
  rw [List.set_getElem_self inside]

/- The advertised weights -/

def edsWeights (snap : Snapshot) : List (String × Option Nat) :=
  match snap.byType.lookup tEndpoint with
  | some [⟨_, .clusterLoadAssignment cla⟩] =>
    cla.endpoints.flatMap fun l =>
      l.lbEndpoints.map fun e => (e.address.address, e.loadBalancingWeight)
  | _ => []

theorem eds_weights_build (version : String) (weighted : List Weighted) :
    edsWeights (build version weighted) = weighted.map fun w => (w.ip, some w.weight) := by
  have held : (build version weighted).byType.lookup tEndpoint =
      some [any tEndpoint (.clusterLoadAssignment (endpoints weighted))] := by
    simp only [build, insertAll, List.foldl_cons, List.foldl_nil, lookup_insert, if_true]
  simp [edsWeights, held, any, endpoints, endpointsWith]

def Idle (c : OrcaClient) : Prop := c.phase = .idle

/-- With no `observe` in progress, every backend has the weight of its latest reading. -/
def Current (st : State) : Prop :=
  (∀ c ∈ st.tasks, Idle c) → edsWeights st.shared.advertised.value =
    st.shared.backends.map fun b => (b.2, some (weightFromUtil (utilOf st.shared.util b.1)))

/-- A call that is the last one in progress publishes weights that the readings
    stored since it read them leave as they are. -/
def LastPublishCurrent (st : State) (e : Step) : Prop :=
  ∀ (i : Nat) c seen version weighted, e = .step i .publish → st.tasks[i]? = some c →
    c.phase = .numbered seen version weighted →
    (∀ (j : Nat) d, j ≠ i → st.tasks[j]? = some d → Idle d) →
    ∀ b ∈ st.shared.backends,
      weightFromUtil (utilOf seen b.1) = weightFromUtil (utilOf st.shared.util b.1)

def PhaseOk (w : Control) : Phase → Prop
  | .computed seen weighted => weighted = recompute w.backends seen
  | .numbered seen _ weighted => weighted = recompute w.backends seen
  | _ => True

theorem client_step_backends {w w' : Control} {c c' : OrcaClient} {a : Act}
    (h : ClientStep w c a w' c') : w'.backends = w.backends := by
  cases h <;> rfl

theorem phase_ok_backends {w w' : Control} (same : w'.backends = w.backends) {p : Phase} :
    PhaseOk w p → PhaseOk w' p := by
  cases p <;> simp only [PhaseOk, same] <;> exact id

abbrev ServerOk : State → Prop := Holds (fun _ => True) fun _ w c => PhaseOk w c.phase

theorem server_ok_next {st st' : State} {e : Step} (ok : ServerOk st)
    (h : server.next st e = some st') : ServerOk st' := by
  refine holds_next (fun _ _ a => a.elim) (fun _ _ a => a.elim) ?_ ?_
    (fun _ _ => trivial : ∀ a, e = .spawn a → True) ok h
  · intro i w c a w' c' _ ok moved
    refine ⟨trivial, ?_⟩
    cases client_step moved with
    | unmoved u phase same => exact ok
    | store u phase new => trivial
    | compute phase => rfl
    | number seen weighted phase => simpa [phase, PhaseOk] using ok
    | publish seen version weighted phase => trivial
  · intro i j w c a w' c' d _ _ okD moved
    exact phase_ok_backends (client_step_backends (client_step moved)) okD

theorem start_ok (backends : List (String × String)) : ServerOk (start backends) := by
  refine ⟨trivial, fun i c found => ?_⟩
  obtain ⟨b, _, rfl⟩ := List.mem_map.mp (List.mem_of_getElem? found)
  trivial

theorem start_current (backends : List (String × String)) : Current (start backends) := by
  intro _
  simp only [start, startup, Watch.channel, eds_weights_build, List.map_map]
  rfl

theorem publish_current {st : State} {i : Nat} {c : OrcaClient} {seen : HashMap String ℚ}
    {version : String} {weighted : List Weighted} (weighs : weighted = recompute st.shared.backends seen) :
    Current ⟨{ st.shared with advertised := st.shared.advertised.send (build version weighted) },
        st.tasks.set i { c with phase := .idle }⟩ ↔
      ((∀ (j : Nat) d, j ≠ i → st.tasks[j]? = some d → Idle d) →
        ∀ b ∈ st.shared.backends,
          weightFromUtil (utilOf seen b.1) = weightFromUtil (utilOf st.shared.util b.1)) := by
  have same : edsWeights (build version weighted) =
        (st.shared.backends.map fun b => (b.2, some (weightFromUtil (utilOf st.shared.util b.1)))) ↔
      ∀ b ∈ st.shared.backends,
        weightFromUtil (utilOf seen b.1) = weightFromUtil (utilOf st.shared.util b.1) := by
    rw [eds_weights_build, weighs, recompute, List.map_map, List.map_inj_left]
    simp only [Function.comp_apply, Prod.mk.injEq, Option.some.injEq, true_and]
  constructor
  · intro current others
    exact same.mp (current (set_all rfl others))
  · intro fresh quiet
    exact same.mpr (fresh (set_all_others quiet))

theorem current_next {st st' : State} {e : Step} (ok : ServerOk st) (before : Current st)
    (h : server.next st e = some st') : Current st' ↔ LastPublishCurrent st e := by
  rcases next_cases h with ⟨a, _, _⟩ | ⟨i, a, c, w', c', rfl, found, moved, rfl⟩
  · exact nomatch a
  · cases client_step moved with
    | unmoved u phase same =>
      refine iff_of_true ?_ nofun
      obtain ⟨inside, rfl⟩ := List.getElem?_eq_some_iff.mp found
      rw [List.set_getElem_self inside]
      exact before
    | store u phase new =>
      exact iff_of_true (fun quiet => absurd (set_all_own found quiet) nofun) nofun
    | compute phase => exact iff_of_true (fun quiet => absurd (set_all_own found quiet) nofun) nofun
    | number seen weighted phase =>
      exact iff_of_true (fun quiet => absurd (set_all_own found quiet) nofun) nofun
    | publish seen version weighted phase =>
      have weighs : PhaseOk st.shared c.phase := ok.task i c found
      rw [phase] at weighs
      rw [publish_current weighs]
      constructor
      · intro fresh j d seen' version' weighted' eq found' phase' others
        cases eq
        cases found.symm.trans found'
        cases phase.symm.trans phase'
        exact fresh others
      · intro fresh others
        exact fresh i c seen version weighted rfl found phase others

/- Schedules -/

def InFlight : Phase → Prop
  | .computed _ _ => True
  | .numbered _ _ _ => True
  | _ => False

/-- A reading that gives its backend another weight is stored only while no call is
    between its read of the readings and its publish. -/
def Undisturbed (st : State) (e : Step) : Prop :=
  ∀ (i : Nat) c u, e = .step i (.report u) → st.tasks[i]? = some c → Idle c →
    moved st.shared.util c.host u →
    weightFromUtil u ≠ weightFromUtil (utilOf st.shared.util c.host) →
    ∀ d ∈ st.tasks, ¬ InFlight d.phase

def SameWeights (backends : List (String × String)) (util util' : HashMap String ℚ) : Prop :=
  ∀ b ∈ backends, weightFromUtil (utilOf util b.1) = weightFromUtil (utilOf util' b.1)

/-- Weights in flight are those that the current readings give. -/
def PhaseFresh (w : Control) : Phase → Prop
  | .computed seen _ => SameWeights w.backends seen w.util
  | .numbered seen _ _ => SameWeights w.backends seen w.util
  | _ => True

def Fresh (st : State) : Prop := ∀ c ∈ st.tasks, PhaseFresh st.shared c.phase

section Schedules
variable {st st' : State} {e : Step} {w w' : Control} {c : OrcaClient} {i j : Nat} {u : ℚ}

theorem util_of_insert (util : HashMap String ℚ) (host other : String) (u : ℚ) :
    utilOf (util.insert host u) other = if other = host then u else utilOf util other := by
  unfold utilOf entryOr
  rw [lookup_insert]
  split <;> rfl

theorem store_same_weights {util : HashMap String ℚ} {host : String}
    (same : weightFromUtil u = weightFromUtil (utilOf util host)) (backends : List (String × String)) :
    SameWeights backends util (util.insert host u) := by
  intro b _
  rw [util_of_insert]
  split
  · rename_i isHost
    rw [isHost, same]
  · rfl

theorem phase_fresh_of_landed {p : Phase} (landed : ¬ InFlight p) : PhaseFresh w p := by
  cases p with
  | computed seen weighted => exact absurd trivial landed
  | numbered seen version weighted => exact absurd trivial landed
  | _ => trivial

theorem phase_fresh_store {p : Phase} (same : SameWeights w.backends w.util w'.util)
    (backends : w'.backends = w.backends) (fresh : PhaseFresh w p) : PhaseFresh w' p := by
  have step : ∀ seen, SameWeights w.backends seen w.util → SameWeights w'.backends seen w'.util := by
    intro seen before b member
    rw [backends] at member
    exact (before b member).trans (same b member)
  cases p with
  | computed seen weighted => exact step seen fresh
  | numbered seen version weighted => exact step seen fresh
  | _ => trivial

theorem fresh_next (fresh : Fresh st) (undisturbed : Undisturbed st e)
    (h : server.next st e = some st') : Fresh st' := by
  rcases next_cases h with ⟨a, _, _⟩ | ⟨i, a, c, w', c', rfl, found, moves, rfl⟩
  · exact nomatch a
  · have own := fresh c (List.mem_of_getElem? found)
    have others : ∀ (j : Nat) d, j ≠ i → st.tasks[j]? = some d → PhaseFresh st.shared d.phase :=
      fun j d _ atJ => fresh d (List.mem_of_getElem? atJ)
    cases client_step moves with
    | unmoved u phase same => exact set_all own others
    | store u phase new =>
      refine set_all trivial fun j d other atJ => ?_
      by_cases same : weightFromUtil u = weightFromUtil (utilOf st.shared.util c.host)
      · exact phase_fresh_store (store_same_weights same _) rfl (others j d other atJ)
      · exact phase_fresh_of_landed
          (undisturbed i c u rfl found phase new same d (List.mem_of_getElem? atJ))
    | compute phase => exact set_all (fun _ _ => rfl) others
    | number seen weighted phase =>
      rw [phase] at own
      exact set_all own others
    | publish seen version weighted phase => exact set_all trivial others

theorem fresh_publishes (fresh : Fresh st) : LastPublishCurrent st e := by
  intro i c seen version weighted _ found phase _
  have own := fresh c (List.mem_of_getElem? found)
  rw [phase] at own
  exact own

theorem start_fresh (backends : List (String × String)) : Fresh (start backends) := by
  intro c member
  obtain ⟨b, _, rfl⟩ := List.mem_map.mp member
  trivial

theorem store_other_weight {backends : List (String × String)} {b : String × String}
    {seen util : HashMap String ℚ} (known : b ∈ backends)
    (changes : weightFromUtil u ≠ weightFromUtil (utilOf util b.1))
    (before : SameWeights backends seen util) : ¬ SameWeights backends seen (util.insert b.1 u) := by
  intro after
  have now := after b known
  rw [util_of_insert, if_pos rfl, before b known] at now
  exact changes now.symm

/-- Weights in flight go stale when a store gives a backend another weight. -/
theorem phase_stale_store {p : Phase} {b : String × String} (known : b ∈ w.backends)
    (changes : weightFromUtil u ≠ weightFromUtil (utilOf w.util b.1)) (inFlight : InFlight p)
    (fresh : PhaseFresh w p) : ¬ PhaseFresh { w with util := w.util.insert b.1 u } p := by
  cases p with
  | computed seen weighted => exact store_other_weight known changes fresh
  | numbered seen version weighted => exact store_other_weight known changes fresh
  | _ => exact inFlight.elim

theorem disturbed_stale (fresh : Fresh st) (hosts : ∀ c ∈ st.tasks, ∃ b ∈ st.shared.backends, b.1 = c.host)
    (disturbed : ¬ Undisturbed st e) (h : server.next st e = some st') : ¬ Fresh st' := by
  unfold Undisturbed at disturbed
  push Not at disturbed
  obtain ⟨i, c, u, rfl, found, idle, new, changes, d, member, inFlight⟩ := disturbed
  obtain ⟨b, known, isHost⟩ := hosts c (List.mem_of_getElem? found)
  have stored : st' = ⟨{ st.shared with util := st.shared.util.insert b.1 u },
      st.tasks.set i { c with phase := .stored }⟩ := by
    have moves : stepClient st.shared c c.phase (.report u) =
        some ({ st.shared with util := st.shared.util.insert b.1 u }, { c with phase := .stored }) := by
      rw [show c.phase = .idle from idle, isHost]
      exact if_pos new
    exact Option.some.inj (h.symm.trans (next_step found moves))
  obtain ⟨j, atJ⟩ := List.mem_iff_getElem?.mp member
  have other : i ≠ j := by
    rintro rfl
    cases found.symm.trans atJ
    rw [show c.phase = .idle from idle] at inFlight
    exact inFlight
  subst stored
  intro after
  have still : d ∈ st.tasks.set i { c with phase := .stored } :=
    List.mem_of_getElem? ((List.getElem?_set_ne other).trans atJ)
  rw [← isHost] at changes
  exact phase_stale_store known changes inFlight (fresh d member) (after d still)

/- Calls that run to their end -/

def finishing : Phase → List Act
  | .idle => []
  | .stored => [.read, .number, .publish]
  | .computed _ _ => [.number, .publish]
  | .numbered _ _ _ => [.publish]

def NoReports (es : List Step) : Prop := ∀ i u, .step i (.report u) ∉ es

theorem finishing_no_reports (p : Phase) (i : Nat) : NoReports ((finishing p).map (.step i)) := by
  intro j u member
  obtain ⟨a, inFinishing, eq⟩ := List.mem_map.mp member
  cases eq
  cases p <;> simp [finishing] at inFinishing

theorem finish_call (found : st.tasks[i]? = some c) :
    ∃ w', exec server.next st ((finishing c.phase).map (.step i)) =
        some ⟨w', st.tasks.set i { c with phase := .idle }⟩ ∧
      w'.util = st.shared.util ∧ w'.backends = st.shared.backends := by
  obtain ⟨host, phase⟩ := c
  cases phase with
  | idle => exact ⟨_, exec_alone found rfl, rfl, rfl⟩
  | stored => exact ⟨_, exec_alone found rfl, rfl, rfl⟩
  | computed seen weighted => exact ⟨_, exec_alone found rfl, rfl, rfl⟩
  | numbered seen version weighted => exact ⟨_, exec_alone found rfl, rfl, rfl⟩

theorem finish_others (st : State) (j n : Nat) :
    ∃ fs st', NoReports fs ∧ exec server.next st fs = some st' ∧
      st'.shared.util = st.shared.util ∧ st'.shared.backends = st.shared.backends ∧
      (∀ k, k = j ∨ n ≤ k → st'.tasks[k]? = st.tasks[k]?) ∧
      ∀ k < n, k ≠ j → ∀ d, st'.tasks[k]? = some d → Idle d := by
  induction n with
  | zero => exact ⟨[], st, by simp [NoReports], rfl, rfl, rfl, fun _ _ => rfl, by simp⟩
  | succ n ih =>
    obtain ⟨fs, mid, quiet, run, util, backends, kept, idle⟩ := ih
    have keep : ∀ k, k = j ∨ n + 1 ≤ k → mid.tasks[k]? = st.tasks[k]? := fun k which =>
      kept k (by omega)
    cases atN : mid.tasks[n]? with
    | none =>
      refine ⟨fs, mid, quiet, run, util, backends, keep, fun k below other d found => ?_⟩
      rcases Nat.lt_succ_iff_lt_or_eq.mp below with less | rfl
      · exact idle k less other d found
      · rw [atN] at found
        contradiction
    | some c =>
      by_cases own : n = j
      · refine ⟨fs, mid, quiet, run, util, backends, keep, fun k below other d found => ?_⟩
        exact idle k (by omega) other d found
      · obtain ⟨w', finish, sameUtil, sameBackends⟩ := finish_call atN
        refine ⟨fs ++ (finishing c.phase).map (.step n), _, ?_,
          exec_append_some.mpr ⟨mid, run, finish⟩, sameUtil.trans util, sameBackends.trans backends,
          ?_, ?_⟩
        · intro i u member
          rcases List.mem_append.mp member with before | after
          · exact quiet i u before
          · exact finishing_no_reports c.phase n i u after
        · intro k which
          rw [List.getElem?_set_ne (by omega)]
          exact keep k which
        · intro k below other d found
          rcases getElem?_set_cases found with ⟨_, rfl⟩ | ⟨different, old⟩
          · rfl
          · exact idle k (by omega) other d old

theorem stale_publish (ok : ServerOk st) {seen : HashMap String ℚ} {version : String}
    {weighted : List Weighted} (found : st.tasks[j]? = some c)
    (phase : c.phase = .numbered seen version weighted)
    (others : ∀ (k : Nat) d, k ≠ j → st.tasks[k]? = some d → Idle d)
    (stale : ¬ SameWeights st.shared.backends seen st.shared.util) :
    ∃ st', server.next st (.step j .publish) = some st' ∧ ¬ Current st' := by
  have weighs : PhaseOk st.shared c.phase := ok.task j c found
  rw [phase] at weighs
  have publishes : stepClient st.shared c c.phase .publish =
      some ({ st.shared with advertised := st.shared.advertised.send (build version weighted) },
        { c with phase := .idle }) := by rw [phase]; rfl
  refine ⟨_, next_step found publishes, ?_⟩
  rw [publish_current weighs]
  exact fun fresh => stale (fresh others)

theorem stale_call (ok : ServerOk st) (found : st.tasks[j]? = some c)
    (others : ∀ (k : Nat) d, k ≠ j → st.tasks[k]? = some d → Idle d)
    (stale : ¬ PhaseFresh st.shared c.phase) :
    ∃ st', exec server.next st ((finishing c.phase).map (.step j)) = some st' ∧ ¬ Current st' := by
  cases phase : c.phase with
  | numbered seen version weighted =>
    rw [phase] at stale
    obtain ⟨st', publish, wrong⟩ := stale_publish ok found phase others stale
    exact ⟨st', exec_cons_some.mpr ⟨st', publish, rfl⟩, wrong⟩
  | computed seen weighted =>
    rw [phase] at stale
    have numbers : stepClient st.shared c c.phase .number =
        some ({ st.shared with version := fetchAddOne st.shared.version },
          { c with phase := .numbered seen (versionLabel (fetchAddOne st.shared.version)) weighted }) := by
      rw [phase]; rfl
    have first := next_step (p := server) found numbers
    have inside := (List.getElem?_eq_some_iff.mp found).1
    obtain ⟨st', publish, wrong⟩ := stale_publish (j := j) (server_ok_next ok first)
      (List.getElem?_set_self inside) rfl
      (fun k d other atK => others k d other (by rwa [List.getElem?_set_ne other.symm] at atK)) stale
    exact ⟨st', exec_cons_some.mpr ⟨_, first, exec_cons_some.mpr ⟨st', publish, rfl⟩⟩, wrong⟩
  | idle => exact absurd (by rw [phase]; trivial) stale
  | stored => exact absurd (by rw [phase]; trivial) stale

theorem stale_finishes (ok : ServerOk st) (stale : ¬ Fresh st) :
    ∃ fs st', NoReports fs ∧ exec server.next st fs = some st' ∧ ¬ Current st' := by
  unfold Fresh at stale
  push Not at stale
  obtain ⟨c, member, stale⟩ := stale
  obtain ⟨j, found⟩ := List.mem_iff_getElem?.mp member
  obtain ⟨fs, mid, quiet, run, util, backends, kept, idle⟩ := finish_others st j st.tasks.length
  have midOk : ServerOk mid := exec_invariant (fun _ _ _ before h => server_ok_next before h) run ok
  have foundMid : mid.tasks[j]? = some c := (kept j (Or.inl rfl)).trans found
  have others : ∀ (k : Nat) d, k ≠ j → mid.tasks[k]? = some d → Idle d := by
    intro k d other atK
    refine idle k (Nat.lt_of_not_le fun outside => ?_) other d atK
    rw [kept k (Or.inr outside), List.getElem?_eq_none outside] at atK
    contradiction
  have staleMid : ¬ PhaseFresh mid.shared c.phase := fun fresh =>
    stale (phase_fresh_store (by rw [util]; exact fun _ _ => rfl) backends.symm fresh)
  obtain ⟨st', finish, wrong⟩ := stale_call midOk foundMid others staleMid
  refine ⟨fs ++ (finishing c.phase).map (.step j), st', ?_,
    exec_append_some.mpr ⟨mid, run, finish⟩, wrong⟩
  intro i u inBoth
  rcases List.mem_append.mp inBoth with before | after
  · exact quiet i u before
  · exact finishing_no_reports c.phase j i u after

end Schedules

/-- The clients stand for the backends, all through a run. -/
abbrev HostsKnown (backends : List (String × String)) : State → Prop :=
  Holds (·.backends = backends) fun _ _ c => ∃ b ∈ backends, b.1 = c.host

theorem hosts_known_next {backends : List (String × String)} {st st' : State} {e : Step}
    (known : HostsKnown backends st) (h : server.next st e = some st') : HostsKnown backends st' := by
  refine holds_next (fun _ _ a => a.elim) (fun _ _ a => a.elim) ?_ ?_
    (fun _ _ => trivial : ∀ a, e = .spawn a → True) known h
  · intro i w c a w' c' same host moved
    cases client_step moved <;> exact ⟨same, host⟩
  · exact fun _ _ _ _ _ _ _ _ _ _ host _ => host

theorem start_hosts_known (backends : List (String × String)) :
    HostsKnown backends (start backends) := by
  refine ⟨rfl, fun i c found => ?_⟩
  obtain ⟨b, member, rfl⟩ := List.mem_map.mp (List.mem_of_getElem? found)
  exact ⟨b, member, rfl⟩

/-- For every list of backends and every interleaving of their reports. If no reading
    that changes a weight is stored while another call is between its read of the
    readings and its publish, then the advertised weights are those of the recorded
    readings whenever no `observe` is in progress. If one is, then at that moment the
    calls in progress can finish, without a further report, in such an order that
    they are not. -/
theorem current_if_undisturbed (backends : List (String × String)) (es : List Step) :
    (Along server.next Undisturbed (start backends) es →
      Always server.next Current (start backends) es) ∧
    (¬ Along server.next Undisturbed (start backends) es →
      ∃ es₁ fs, es₁ <+: es ∧ NoReports fs ∧
        ¬ Always server.next Current (start backends) (es₁ ++ fs)) := by
  have initial : ServerOk (start backends) ∧ Fresh (start backends) ∧
      HostsKnown backends (start backends) :=
    ⟨start_ok backends, start_fresh backends, start_hosts_known backends⟩
  have kept : ∀ s e t, (ServerOk s ∧ Fresh s ∧ HostsKnown backends s) → Undisturbed s e →
      server.next s e = some t → ServerOk t ∧ Fresh t ∧ HostsKnown backends t :=
    fun _ _ _ before undisturbed h => ⟨server_ok_next before.1 h,
      fresh_next before.2.1 undisturbed h, hosts_known_next before.2.2 h⟩
  constructor
  · intro undisturbed
    refine always_of_along (I := fun s => (ServerOk s ∧ Fresh s ∧ HostsKnown backends s) ∧ Current s)
      (fun _ both => both.2) ?_ undisturbed ⟨initial, start_current backends⟩
    rintro s e t ⟨before, current⟩ undisturbed h
    exact ⟨kept s e t before undisturbed h,
      (current_next before.1 current h).mpr (fresh_publishes before.2.1)⟩
  · intro disturbed
    obtain ⟨es₁, e, es₂, t, u, rfl, along, run, moved, broken⟩ := along_breaks disturbed
    obtain ⟨ok, fresh, hosts⟩ := along_invariant kept run along initial
    have stale : ¬ Fresh u := by
      refine disturbed_stale fresh (fun c member => ?_) broken moved
      obtain ⟨i, found⟩ := List.mem_iff_getElem?.mp member
      rw [hosts.shared]
      exact hosts.task i c found
    obtain ⟨fs, st', quiet, finish, wrong⟩ := stale_finishes (server_ok_next ok moved) stale
    have reached : exec server.next (start backends) (es₁ ++ [e] ++ fs) = some st' :=
      exec_append_some.mpr
        ⟨u, exec_append_some.mpr ⟨t, run, exec_cons_some.mpr ⟨u, moved, rfl⟩⟩, finish⟩
    exact ⟨es₁ ++ [e], fs, ⟨es₂, by simp⟩, quiet, fun all => wrong (always_last all reached)⟩

def overtakenReport : List Step :=
  [.step 0 (.report (9 / 10)), .step 0 .read, .step 1 (.report (1 / 10)), .step 1 .read,
    .step 1 .number, .step 1 .publish, .step 0 .number, .step 0 .publish]

def demoBackends : List (String × String) :=
  [("upstream-a", "10.0.0.1"), ("upstream-b", "10.0.0.2")]

/-- Nothing is in progress at the end, and the reading 0.1 of `upstream-b`, which
    stands for weight 900, is advertised with the weight 500 of no reading. -/
theorem overtaken_report_is_lost :
    (∃ st, exec server.next (start demoBackends) overtakenReport = some st ∧
      (∀ c ∈ st.tasks, Idle c) ∧ utilOf st.shared.util "upstream-b" = 1 / 10 ∧
      weightFromUtil (1 / 10) = 900 ∧
      edsWeights st.shared.advertised.value =
        [("10.0.0.1", some 100), ("10.0.0.2", some 500)]) ∧
    ¬ Always server.next Current (start demoBackends) overtakenReport := by
  have last : ∃ st, exec server.next (start demoBackends) overtakenReport = some st ∧
      (∀ c ∈ st.tasks, Idle c) ∧ st.shared.backends = demoBackends ∧
      utilOf st.shared.util "upstream-b" = 1 / 10 ∧
      edsWeights st.shared.advertised.value =
        [("10.0.0.1", some 100), ("10.0.0.2", some 500)] := by
    refine ⟨_, rfl, ?_, rfl, ?_, ?_⟩
    · simp [Idle, start, demoBackends]
    · decide +kernel
    · decide +kernel
  obtain ⟨st, run, idle, backends, reading, advertised⟩ := last
  have heavy : weightFromUtil (1 / 10) = 900 := by decide +kernel
  refine ⟨⟨st, run, idle, reading, heavy, advertised⟩, fun all => ?_⟩
  have wanted : Current st := always_last all run
  have weights := wanted idle
  rw [backends, advertised] at weights
  simp only [demoBackends, List.map_cons, reading, heavy] at weights
  simp at weights

end OrcaServer
