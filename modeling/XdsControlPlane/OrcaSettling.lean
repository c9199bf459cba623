import XdsControlPlane.OrcaStreams
import XdsControlPlane.DrawnNumbers

/-!
Chapter 6 with the chapter's own upstreams, each of which reports one utilization for
ever. A reading that is recorded is never recorded again, so over a run of any length
there is at most one publication for each backend, and every stream is sent each type
at most once more than there are backends. Once every backend is recorded the shared
state is final, and it reaches every stream.
-/
namespace OrcaSettling
open ExecutableRuns SharedCells KeyedMaps EnvoyMessages WatchReaders VersionedPushes DrawnNumbers
  SotwSnapshots OrcaServer OrcaSystem OrcaRefinement OrcaStreams
open OrcaWeights (moved_iff)
open SotwServer (DiscoveryRequest)
open SotwStreams (rendering)

/- The clients -/

/-- A client whose report was new and is still to be published. -/
def Busy (c : OrcaClient) : Bool :=
  match c.phase with
  | .idle => false
  | _ => true

def Recorded (util : HashMap String ℚ) (host : String) : Bool := (util.lookup host).isSome

def Constant (load : String → ℚ) (hosts : List String) (e : Step) : Prop :=
  ∀ i u host, e = .step i (.report u) → hosts[i]? = some host → u = load host

/-- Whatever was published or is about to be is for a host of its own that is recorded. -/
structure Unchanging (load : String → ℚ) (hosts : List String) (st : State) : Prop where
  named : st.tasks.map OrcaClient.host = hosts
  recorded : ∀ host u, st.shared.util.lookup host = some u → u = load host
  busy : ∀ c ∈ st.tasks, Busy c → Recorded st.shared.util c.host
  count : st.shared.advertised.stamp + st.tasks.countP Busy ≤
    hosts.countP (Recorded st.shared.util)

section Clients
variable {load : String → ℚ} {hosts : List String} {st st' : State} {e : Step}

theorem constant_moved {util : HashMap String ℚ} {host : String}
    (recorded : ∀ u, util.lookup host = some u → u = load host) (new : moved util host (load host)) :
    util.lookup host = none := by
  rcases moved_iff.mp new with unknown | ⟨p, held, apart⟩
  · exact unknown
  · rw [recorded p held, sub_self, abs_zero] at apart
    norm_num at apart

theorem recorded_insert (util : HashMap String ℚ) (host : String) (u : ℚ) (h : String) :
    Recorded (util.insert host u) h = (decide (h = host) || Recorded util h) := by
  unfold Recorded
  rw [lookup_insert]
  by_cases same : h = host <;> simp [same]

theorem count_recorded {util : HashMap String ℚ} {host : String} (u : ℚ) (listed : host ∈ hosts)
    (unknown : util.lookup host = none) :
    hosts.countP (Recorded util) + 1 ≤ hosts.countP (Recorded (util.insert host u)) := by
  have unrecorded : Recorded util host = false := by simp [Recorded, unknown]
  induction hosts with
  | nil => simp at listed
  | cons h hs ih =>
    have grows : hs.countP (Recorded util) ≤ hs.countP (Recorded (util.insert host u)) := by
      apply List.countP_mono_left
      intro x _ holds
      simp [recorded_insert, holds]
    simp only [List.countP_cons, recorded_insert]
    by_cases same : h = host
    · simp only [same, unrecorded, decide_true, Bool.true_or, if_true, Bool.false_eq_true, if_false]
      omega
    · have later := ih ((List.mem_cons.mp listed).resolve_left fun eq => same eq.symm)
      simp only [same, decide_false, Bool.false_or]
      omega

theorem unchanging_continued (before : Unchanging load hosts st) {i : Nat} {c c' : OrcaClient}
    {w' : Control} (found : st.tasks[i]? = some c) (wasBusy : Busy c = true)
    (host : c'.host = c.host) (sameUtil : w'.util = st.shared.util)
    (published : w'.advertised.stamp + (if Busy c' then 1 else 0) = st.shared.advertised.stamp + 1) :
    Unchanging load hosts ⟨w', st.tasks.set i c'⟩ := by
  have count : (st.tasks.set i c').countP Busy + _ = _ := countP_set found
  have bound := before.count
  constructor
  case named => exact (hosts_set found host).trans before.named
  case recorded => exact sameUtil ▸ before.recorded
  case busy =>
    intro d inTasks isBusy
    rw [sameUtil]
    rcases List.mem_or_eq_of_mem_set inTasks with old | rfl
    · exact before.busy d old isBusy
    · rw [host]
      exact before.busy c (List.mem_of_getElem? found) wasBusy
  case count =>
    rw [wasBusy, if_pos rfl] at count
    simp only [sameUtil]
    omega

theorem unchanging_stored (before : Unchanging load hosts st) {i : Nat} {c : OrcaClient}
    (found : st.tasks[i]? = some c) (phase : c.phase = .idle)
    (new : moved st.shared.util c.host (load c.host)) :
    Unchanging load hosts
      ⟨{ st.shared with util := st.shared.util.insert c.host (load c.host) },
        st.tasks.set i { c with phase := .stored }⟩ := by
  have idle : Busy c = false := by simp [Busy, phase]
  have here : hosts[i]? = some c.host := by simp [← before.named, found]
  have unknown := constant_moved (before.recorded c.host) new
  have more := count_recorded (load c.host) (List.mem_of_getElem? here) unknown
  have count : (st.tasks.set i { c with phase := .stored }).countP Busy + _ = _ := countP_set found
  have bound := before.count
  constructor
  case named =>
    have host : ({ c with phase := .stored } : OrcaClient).host = c.host := rfl
    exact (hosts_set found host).trans before.named
  case recorded =>
    intro host u held
    rw [lookup_insert] at held
    split at held
    · rename_i same
      rw [same, Option.some.inj held]
    · exact before.recorded host u held
  case busy =>
    intro d inTasks isBusy
    rw [recorded_insert]
    rcases List.mem_or_eq_of_mem_set inTasks with old | rfl
    · simp [before.busy d old isBusy]
    · simp
  case count =>
    have nowBusy : Busy { c with phase := .stored } = true := rfl
    rw [nowBusy, idle] at count
    simp only [Bool.false_eq_true, if_false, if_true] at count
    simp only
    omega

theorem unchanging_next (before : Unchanging load hosts st) (constant : Constant load hosts e)
    (h : server.next st e = some st') : Unchanging load hosts st' := by
  rcases next_cases h with ⟨a, _, _⟩ | ⟨i, a, c, w', c', rfl, found, moved, rfl⟩
  · exact nomatch a
  · cases client_step moved with
    | unmoved u phase same =>
      obtain ⟨inside, rfl⟩ := List.getElem?_eq_some_iff.mp found
      rw [List.set_getElem_self inside]
      exact before
    | store u phase new =>
      have here : hosts[i]? = some c.host := by simp [← before.named, found]
      cases constant i u c.host rfl here
      exact unchanging_stored before found phase new
    | compute phase =>
      exact unchanging_continued before found (by simp [Busy, phase]) rfl rfl (by simp [Busy])
    | number seen weighted phase =>
      exact unchanging_continued before found (by simp [Busy, phase]) rfl rfl (by simp [Busy])
    | publish seen version weighted phase =>
      exact unchanging_continued before found (by simp [Busy, phase]) rfl rfl
        (by simp [Busy, Watch.send])

theorem unchanging_run {es : List Step} (before : Unchanging load hosts st)
    (constant : ∀ e ∈ es, Constant load hosts e) (run : exec server.next st es = some st') :
    Unchanging load hosts st' :=
  along_invariant (fun _ _ _ before constant h => unchanging_next before constant h) run
    (along_of_mem constant) before

theorem start_unchanging (load : String → ℚ) (backends : List (String × String)) :
    Unchanging load (backends.map Prod.fst) (start backends) := by
  have idle : ∀ c ∈ (start backends).tasks, Busy c = false := by
    intro c member
    obtain ⟨b, _, rfl⟩ := List.mem_map.mp member
    rfl
  constructor
  case named => simp [start, Function.comp_def]
  case recorded => simp [start, startup]
  case busy =>
    intro c member isBusy
    simp [idle c member] at isBusy
  case count =>
    have none_ : (start backends).tasks.countP Busy = 0 := by
      rw [List.countP_eq_zero]
      intro c member
      simp [idle c member]
    have first : (start backends).shared.advertised.stamp = 0 := rfl
    omega

/-- Every backend is recorded and no report is on its way. -/
def AllRecorded (hosts : List String) (st : State) : Prop :=
  (∀ c ∈ st.tasks, Idle c) ∧ ∀ host ∈ hosts, Recorded st.shared.util host

theorem all_recorded_next (before : Unchanging load hosts st) (all : AllRecorded hosts st)
    (constant : Constant load hosts e) (h : server.next st e = some st') : st' = st := by
  rcases next_cases h with ⟨a, _, _⟩ | ⟨i, a, c, w', c', rfl, found, moved, rfl⟩
  · exact nomatch a
  · have idle : c.phase = .idle := all.1 c (List.mem_of_getElem? found)
    cases client_step moved with
    | unmoved u phase same =>
      obtain ⟨inside, rfl⟩ := List.getElem?_eq_some_iff.mp found
      rw [List.set_getElem_self inside]
    | store u phase new =>
      have here : hosts[i]? = some c.host := by simp [← before.named, found]
      cases constant i u c.host rfl here
      have known := all.2 c.host (List.mem_of_getElem? here)
      simp [Recorded, constant_moved (before.recorded c.host) new] at known
    | compute phase => cases idle.symm.trans phase
    | number seen weighted phase => cases idle.symm.trans phase
    | publish seen version weighted phase => cases idle.symm.trans phase

theorem all_recorded_run {es : List Step} (before : Unchanging load hosts st)
    (all : AllRecorded hosts st) (constant : ∀ e ∈ es, Constant load hosts e)
    (run : exec server.next st es = some st') : st' = st := by
  apply along_invariant (I := fun s => s = st) ?_ run (along_of_mem constant) rfl
  rintro s e t rfl constant h
  exact all_recorded_next before all constant h

end Clients

/- How many numbers are drawn -/

def heldVersion (c : OrcaClient) : Option String :=
  match c.phase with
  | .numbered _ v _ => some v
  | _ => none

def IsNumber : Step → Bool
  | .step _ .number => true
  | _ => false

def numbers : Drawing server versionLabel Snapshot.version where
  counter := Control.version
  watch := Control.advertised
  held := heldVersion
  draws := IsNumber
  spawned _ a := nomatch a
  stepped i w c a w' c' step := by
    cases client_step step with
    | unmoved u phase same => exact .keep _ (fun _ same => same)
    | store u phase new => exact .keep _ (by simp [heldVersion])
    | compute phase => exact .keep _ (by simp [heldVersion])
    | number seen weighted phase => exact .draw
    | publish seen version weighted phase => exact .publish _ (by simp [heldVersion, phase, build])

theorem numbers_next {st st' : State} {e : Step} (h : server.next st e = some st') :
    st.shared.advertised.stamp + st.tasks.countP (fun c => (heldVersion c).isSome) +
        (if IsNumber e then 1 else 0) =
      st'.shared.advertised.stamp + st'.tasks.countP fun c => (heldVersion c).isSome := by
  rcases next_cases h with ⟨a, _, _⟩ | ⟨i, a, c, w', c', rfl, found, moved, rfl⟩
  · exact nomatch a
  · have count : (st.tasks.set i c').countP (fun c => (heldVersion c).isSome) + _ = _ :=
      countP_set found
    cases client_step moved with
    | unmoved u phase same =>
      simp only [IsNumber, Bool.false_eq_true, if_false]
      omega
    | store u phase new =>
      simp only [heldVersion, phase, Option.isSome_none, Bool.false_eq_true, if_false] at count
      simp only [IsNumber, Bool.false_eq_true, if_false, heldVersion]
      omega
    | compute phase =>
      simp only [heldVersion, phase, Option.isSome_none, Bool.false_eq_true, if_false] at count
      simp only [IsNumber, Bool.false_eq_true, if_false, heldVersion]
      omega
    | number seen weighted phase =>
      simp only [heldVersion, phase, Option.isSome_none, Option.isSome_some, Bool.false_eq_true,
        if_false, if_true] at count
      simp only [IsNumber, if_true, heldVersion]
      omega
    | publish seen version weighted phase =>
      simp only [heldVersion, phase, Option.isSome_none, Option.isSome_some, Bool.false_eq_true,
        if_false, if_true] at count
      simp only [IsNumber, Bool.false_eq_true, if_false, heldVersion, Watch.send]
      omega

theorem numbers_run {st st' : State} {es : List Step} (run : exec server.next st es = some st') :
    st.shared.advertised.stamp + st.tasks.countP (fun c => (heldVersion c).isSome) +
        es.countP IsNumber =
      st'.shared.advertised.stamp + st'.tasks.countP fun c => (heldVersion c).isSome := by
  induction es generalizing st with
  | nil =>
    cases Option.some.inj run
    rfl
  | cons e es ih =>
    obtain ⟨mid, first, rest⟩ := exec_cons_some.mp run
    have one := numbers_next first
    have later := ih rest
    rw [List.countP_cons]
    omega

theorem held_busy (c : OrcaClient) (holds : (heldVersion c).isSome) : Busy c := by
  obtain ⟨host, phase⟩ := c
  cases phase <;> simp_all [heldVersion, Busy]

/-- With constant loads, no more numbers are drawn than there are backends. -/
theorem few_numbers {load : String → ℚ} {backends : List (String × String)} {es : List Step}
    {st : State} (run : exec server.next (start backends) es = some st)
    (constant : ∀ e ∈ es, Constant load (backends.map Prod.fst) e) :
    st.shared.advertised.stamp ≤ backends.length ∧ es.countP IsNumber ≤ backends.length := by
  have bound := (unchanging_run (start_unchanging load backends) constant run).count
  have drawn := numbers_run run
  have idle : (start backends).tasks.countP (fun c => (heldVersion c).isSome) = 0 := by
    rw [List.countP_eq_zero]
    intro c member
    obtain ⟨b, _, rfl⟩ := List.mem_map.mp member
    simp [heldVersion]
  have first : (start backends).shared.advertised.stamp = 0 := rfl
  have busy : st.tasks.countP (fun c => (heldVersion c).isSome) ≤ st.tasks.countP Busy :=
    List.countP_mono_left fun c _ => held_busy c
  have listed : (backends.map Prod.fst).countP (Recorded st.shared.util) ≤ backends.length :=
    by
    rw [← List.length_map (f := Prod.fst)]
    exact List.countP_le_length
  omega

/- The whole program -/

/-- Each upstream reports its load and nothing else, as those of the chapter do. -/
def Steady (load : String → ℚ) (backends : List (String × String)) (es : List SystemStep) : Prop :=
  ∀ i r b, .step i (.message (.ok (some r))) ∈ es → backends[i]? = some b →
    r = upstreamReport (load b.1)

structure Settled (backends : List (String × String)) (st : SystemState) : Prop where
  idle : ∀ l, .orca l ∈ st.tasks → l.client.phase = .idle
  recorded : ∀ b ∈ backends, (st.shared.util.lookup b.1).isSome

/-- The steps of its own after which a stream waits with the latest snapshot seen: the
    sends of the arm it is in, and of the watch arm if a change is pending. -/
def stepsLeft (w : Control) (s : AdsStream) : Nat :=
  (match s.phase with
    | .subscribing _ _ => 1
    | .watching _ todo => todo.length + 1
    | _ => 0) +
  if s.receiver.seen = w.advertised.stamp then 0 else s.subscribed.elems.length + 2

theorem steps_left (w : Control) (s : AdsStream) :
    (readerOf s).remaining w.advertised = stepsLeft w s := by
  unfold Reader.remaining stepsLeft readerOf
  cases s.phase <;> rfl

section Runs
variable {load : String → ℚ} {backends : List (String × String)} {es : List SystemStep}
  {st : SystemState} {i : Nat} {s : AdsStream}

theorem upstream_util (u : ℚ) : (upstreamReport u).util = u := by
  unfold OrcaLoadReport.util upstreamReport
  split <;> rfl

theorem steady_constant {st' : SystemState} (run : exec system.next st es = some st')
    (steady : Steady load backends es) :
    ∀ e ∈ es.filterMap project, Constant load (backends.map Prod.fst) e := by
  rintro e member i u host rfl listed
  obtain ⟨r, inRun, rfl⟩ := report_projected run member
  rw [List.getElem?_map] at listed
  obtain ⟨b, atB, rfl⟩ := Option.map_eq_some_iff.mp listed
  rw [steady i r b inRun atB, upstream_util]

theorem steady_append {fs : List SystemStep} (first : Steady load backends es)
    (second : Steady load backends fs) : Steady load backends (es ++ fs) := by
  intro i r b member
  rcases List.mem_append.mp member with inFirst | inSecond
  · exact first i r b inFirst
  · exact second i r b inSecond

theorem steady_clients (run : exec system.next (boot backends) es = some st)
    (steady : Steady load backends es) :
    ∃ st₀, exec server.next (start backends) (es.filterMap project) = some st₀ ∧ Projects st st₀ ∧
      Unchanging load (backends.map Prod.fst) st₀ := by
  obtain ⟨st₀, clients, projects⟩ := projects_run (boot_projects backends) run
  exact ⟨st₀, clients, projects,
    unchanging_run (start_unchanging load backends) (steady_constant run steady) clients⟩

theorem steady_numbers (run : exec system.next (boot backends) es = some st)
    (steady : Steady load backends es) :
    st.shared.advertised.stamp ≤ backends.length ∧
      (es.filterMap project).countP IsNumber ≤ backends.length := by
  obtain ⟨st₀, clients, projects, _⟩ := steady_clients run steady
  rw [← projects.shared]
  exact few_numbers clients (steady_constant run steady)

theorem settled_shared (run : exec system.next (boot backends) es = some st)
    (steady : Steady load backends es) (settled : Settled backends st) {fs : List SystemStep}
    {st' : SystemState} (more : exec system.next st fs = some st')
    (steady' : Steady load backends fs) : st'.shared = st.shared := by
  obtain ⟨st₀, _, projects, unchanging⟩ := steady_clients run steady
  have all : AllRecorded (backends.map Prod.fst) st₀ := by
    constructor
    · intro c member
      obtain ⟨j, atJ⟩ := List.mem_iff_getElem?.mp member
      obtain ⟨l, isLoop⟩ := projects.clients j c atJ
      have client := projects.loops j l isLoop
      cases atJ.symm.trans client
      exact settled.idle l (List.mem_of_getElem? isLoop)
    · intro host listed
      obtain ⟨b, member, rfl⟩ := List.mem_map.mp listed
      rw [projects.shared]
      exact settled.recorded b member
  obtain ⟨st₁, clients, projects'⟩ := projects_run projects more
  have same := all_recorded_run unchanging all (steady_constant more steady') clients
  rw [← projects'.shared, same, projects.shared]

theorem steady_history (run : exec system.next (boot backends) es = some st)
    (steady : Steady load backends es) : (history backends es).length ≤ backends.length + 1 := by
  have length : (history backends es).length + 0 = st.shared.advertised.stamp + 1 :=
    history_length run
  have stamp := (steady_numbers run steady).1
  omega

theorem steady_distinct (run : exec system.next (boot backends) es = some st)
    (steady : Steady load backends es) (few : backends.length < 2 ^ 64) :
    rendering.Distinct (history backends es) := by
  obtain ⟨st₀, clients, _⟩ := steady_clients run steady
  have first : (start backends).shared.advertised.value.version = versionLabel 1 := by
    have label : versionLabel 1 = "v1" := by decide
    rw [label]
    rfl
  have bare : ∀ c ∈ (start backends).tasks, heldVersion c = none := by
    intro c member
    obtain ⟨b, _, rfl⟩ := List.mem_map.mp member
    rfl
  have drawn := (steady_numbers run steady).2
  have nodup := versions_distinct (D := numbers) version_label_injective bare rfl first
    (Nat.lt_of_le_of_lt drawn few) clients
  rw [history_projected run]
  exact distinct_of_nodup rendering nodup

/-- With upstreams whose load never changes, over a run of any length and with any number
    of streams: there is at most one publication for each backend, no stream is sent a
    type more often than that and once more, and from the moment that every backend is
    recorded and none is in `observe` the shared state never changes again. -/
theorem steady_loads_settle (run : exec system.next (boot backends) es = some st)
    (steady : Steady load backends es) :
    st.shared.advertised.stamp ≤ backends.length ∧
    (∀ (i : Nat) s, st.tasks[i]? = some (.stream s) → ∀ typeUrl,
      (s.outbox.responses.countP fun r => r.typeUrl = typeUrl) ≤ backends.length + 1) ∧
    (Settled backends st → ∀ fs st', exec system.next st fs = some st' →
      Steady load backends fs → st'.shared = st.shared) := by
  refine ⟨(steady_numbers run steady).1, ?_, ?_⟩
  · intro i s found typeUrl
    have inOrder : InOrder rendering.channel (history backends es) (readerOf s) :=
      sent_in_order (boot_bare backends) run found rfl
    exact Nat.le_trans (responses_count inOrder typeUrl) (steady_history run steady)
  · exact fun settled fs st' more steady' => settled_shared run steady settled more steady'

/-- The demo's upstreams report and are recorded, while a client follows their weights. -/
def demoLoad : String → ℚ := fun host => if host = "upstream-a" then 9 / 10 else 1 / 10

def demoLoop (i : Nat) (load : ℚ) : List SystemStep :=
  [.step i (.connect true), .step i (.call true), .step i (.message (.ok (some (upstreamReport load)))),
    .step i (.observe .read), .step i (.observe .number), .step i (.observe .publish)]

def demoRun : List SystemStep :=
  .spawn .openStream :: .step 2 (.request ⟨tEndpoint, "", "", none⟩) :: .step 2 .respond ::
    (demoLoop 0 (9 / 10) ++ demoLoop 1 (1 / 10))

theorem demo_steady : Steady demoLoad demoBackends demoRun := by
  intro i r b member atB
  simp only [demoRun, demoLoop, List.cons_append, List.nil_append, List.mem_cons, List.not_mem_nil,
    Event.step.injEq, SystemAct.message.injEq, Except.ok.injEq, Option.some.injEq, reduceCtorEq,
    and_false, or_false, false_or] at member
  rcases member with ⟨rfl, rfl⟩ | ⟨rfl, rfl⟩
  · cases atB
    rfl
  · cases atB
    rfl

theorem demo_settled : ∃ st s, exec system.next (boot demoBackends) demoRun = some st ∧
    st.tasks[2]? = some (.stream s) ∧ s.phase = .select ∧ stepsLeft st.shared s = 3 ∧
    Settled demoBackends st := by
  obtain ⟨st, s, run, tasks, phase, left, first, second⟩ :
      ∃ st s, exec system.next (boot demoBackends) demoRun = some st ∧
        st.tasks = [.orca ⟨"upstream-a", .reading .idle⟩, .orca ⟨"upstream-b", .reading .idle⟩,
          .stream s] ∧ s.phase = .select ∧ stepsLeft st.shared s = 3 ∧
        (st.shared.util.lookup "upstream-a").isSome ∧ (st.shared.util.lookup "upstream-b").isSome :=
    ⟨_, _, rfl, rfl, rfl, by decide, by decide, by decide⟩
  refine ⟨st, s, run, by rw [tasks]; rfl, phase, left, ?_, ?_⟩
  · intro l member
    simp only [tasks, List.mem_cons, SystemTask.orca.injEq, reduceCtorEq, List.not_mem_nil,
      or_false] at member
    rcases member with rfl | rfl <;> rfl
  · intro b member
    simp only [demoBackends, List.mem_cons, List.not_mem_nil, or_false] at member
    rcases member with rfl | rfl
    · exact first
    · exact second

theorem steady_demo_settles :
    ∃ st, exec system.next (boot demoBackends) demoRun = some st ∧
      st.shared.advertised.stamp ≤ demoBackends.length ∧
      ∀ fs st', exec system.next st fs = some st' → Steady demoLoad demoBackends fs →
        st'.shared = st.shared := by
  obtain ⟨st, s, run, _, _, _, settled⟩ := demo_settled
  obtain ⟨stamp, _, final⟩ := steady_loads_settle run demo_steady
  exact ⟨st, run, stamp, final settled⟩

/- Reaching every stream -/

def Subscribed (es : List SystemStep) (i : Nat) (typeUrl : String) : Prop :=
  ∃ r, .step i (.request r) ∈ es ∧ r.typeUrl = typeUrl ∧ ¬ r.IsNack ∧ r.responseNonce = ""

/-- The stream waits with the latest snapshot seen, and has sent it last for every type
    of which `subscribed` holds. -/
def UpToDate (subscribed : String → Prop) (i : Nat) (st : SystemState) : Prop :=
  ∃ s, st.tasks[i]? = some (.stream s) ∧ s.phase = .select ∧
    s.receiver.UpToDate st.shared.advertised ∧ ∀ typeUrl resp, subscribed typeUrl →
      st.shared.advertised.value.buildResponse typeUrl = some resp →
      s.outbox.last typeUrl = some resp

theorem subscribe_asks (r : DiscoveryRequest) (clean : ¬ r.IsNack) (noNonce : r.responseNonce = "") :
    Asks streams (.request r) r.typeUrl := by
  intro w t w' t' moved
  have step : stepTask w t (.request r) = some (w', t') := moved
  rcases task_step step with ⟨l, l', rfl, rfl, _⟩ | ⟨s, s', rfl, rfl, rfl, moves⟩
  · have refused : stepLoop w l l.phase (.request r) = none := by
      unfold stepLoop
      split <;> simp_all
    simp [stepTask, refused] at step
  · cases moves with
    | note r phase quiet =>
      rcases quiet with isNack | answers
      · exact absurd isNack clean
      · exact absurd noNonce answers
    | subscribe r phase clean noNonce => exact ⟨_, rfl, mem_insert.mpr (Or.inl rfl), rfl⟩

theorem stage_idle {s : AdsStream} : (readerOf s).stage = .idle ↔ s.phase = .select := by
  cases phase : s.phase <;> simp [readerOf, stageOf, phase]

theorem stage_open (isOpen : s.phase ≠ .closed) :
    (readerOf s).stage ≠ .closed ∧ (readerOf s).stage ≠ .away := by
  cases phase : s.phase <;> simp_all [readerOf, stageOf]

theorem caught_up_current (run : exec system.next (boot backends) es = some st)
    (steady : Steady load backends es) (few : backends.length < 2 ^ 64) :
    streams.CaughtUp i st ↔ UpToDate (Subscribed es i) i st := by
  rw [caught_up_served sessions (boot_bare backends) run (steady_distinct run steady few)]
  · exact exists_congr fun s => and_congr Iff.rfl (and_congr stage_idle Iff.rfl)
  · rintro typeUrl ⟨r, asked, rfl, clean, noNonce⟩
    exact ⟨.request r, asked, subscribe_asks r clean noNonce⟩

theorem stream_left (found : st.tasks[i]? = some (.stream s)) (isOpen : s.phase ≠ .closed) :
    streams.Left i (stepsLeft st.shared s) st := by
  rw [← steps_left]
  exact left_at sessions found (stage_open isOpen).1 (stage_open isOpen).2

/-- Once all is recorded, an open stream to which nothing new is said takes at most
    `stepsLeft` more steps for ever after, whatever the loops and the other streams do;
    when it has taken them it has sent the final snapshot last for every type that it
    was asked for; and it can always take them. -/
theorem final_weights_reach_streams (run : exec system.next (boot backends) es = some st)
    (steady : Steady load backends es) (settled : Settled backends st)
    (few : backends.length < 2 ^ 64) (found : st.tasks[i]? = some (.stream s))
    (isOpen : s.phase ≠ .closed) :
    (∀ fs st', exec system.next st fs = some st' → Steady load backends fs →
      (∀ a, .step i a ∈ fs → ownAct a) →
      fs.countP (streams.owns i) ≤ stepsLeft st.shared s ∧
        (fs.countP (streams.owns i) = stepsLeft st.shared s ↔
          UpToDate (Subscribed (es ++ fs) i) i st')) ∧
    ∃ (acts : List SystemAct) (st' : SystemState), acts.length = stepsLeft st.shared s ∧
      exec system.next st (acts.map (.step i)) = some st' ∧ UpToDate (Subscribed es i) i st' := by
  have reached := reaches_current (stream_left found isOpen)
    (fun fs _ => Steady load backends fs)
    (fun fs st' => UpToDate (Subscribed (es ++ fs) i) i st') ?_ ?_ ?_
  · obtain ⟨most, acts, st', length, more, s', found', phase, seen, current⟩ := reached
    refine ⟨most, acts, st', length, more, s', found', phase, seen, ?_⟩
    rintro typeUrl resp ⟨r, asked, rest⟩
    exact current typeUrl resp ⟨r, List.mem_append_left _ asked, rest⟩
  · intro fs st' more steady'
    exact congrArg (fun w => w.advertised.stamp) (settled_shared run steady settled more steady')
  · intro acts st' own _ j r b member
    cases own _ (mem_steps.mp member).2
  · intro fs st' more _ steady'
    exact caught_up_current (exec_append_some.mpr ⟨st, run, more⟩) (steady_append steady steady') few

theorem final_demo_weights_reach_stream :
    ∃ st s, exec system.next (boot demoBackends) demoRun = some st ∧
      st.tasks[2]? = some (.stream s) ∧ stepsLeft st.shared s = 3 ∧
      ∃ (acts : List SystemAct) (st' : SystemState), acts.length = stepsLeft st.shared s ∧
        exec system.next st (acts.map (.step 2)) = some st' ∧
        UpToDate (Subscribed demoRun 2) 2 st' := by
  obtain ⟨st, s, run, found, phase, left, settled⟩ := demo_settled
  have few : demoBackends.length < 2 ^ 64 := by decide
  exact ⟨st, s, run, found, left, (final_weights_reach_streams run demo_steady settled few found
    (by simp [phase])).2⟩

end Runs

end OrcaSettling
