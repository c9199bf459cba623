import XdsControlPlane.OrcaRefinement
import XdsControlPlane.SotwStreams

/-!
Chapter 6, the ADS streams of the whole program as readers of what the ORCA clients
publish. The program publishes what its bare clients do, so where a weight comes from
is settled on the clients: every one that is ever sent is the first one or that of a
report its backend made.
-/
namespace OrcaStreams
open ExecutableRuns SharedCells KeyedMaps EnvoyMessages WatchReaders VersionedPushes
  SotwSnapshots OrcaServer OrcaSystem OrcaRefinement
open SotwStreams (rendering outboxOf outbox_push insert_subset InHistory in_history)
open OrcaWeights (exact_weight_bounds weight_from_util_exact)

/- The streams as readers -/

def stageOf : StreamPhase → Stage String Snapshot
  | .select => .idle
  | .subscribing typeUrl snap => .answering typeUrl snap
  | .watching snap todo => .visiting snap todo
  | .closed => .closed

def readerOf (s : AdsStream) :
    Reader String Snapshot (VersionedPushes.Outbox String String DiscoveryResponse) :=
  ⟨s.receiver, s.subscribed.elems, stageOf s.phase, outboxOf s.outbox⟩

/-- The steps that a stream's loop takes by itself, once it has something to do. -/
def ownAct : SystemAct → Bool
  | .respond => true
  | .wake _ => true
  | .deliver => true
  | _ => false

theorem stream_reads {w : Control} {s s' : AdsStream} {a : SystemAct} (step : StreamStep w s a s') :
    ReaderStep rendering.channel w.advertised (readerOf s) (ownAct a) (readerOf s') := by
  cases step with
  | note r phase quiet =>
    have idle : (readerOf s).stage = .idle := congrArg stageOf phase
    have moved := ReaderStep.note (c := rendering.channel) (w := w.advertised)
      (s.subscribed.insert r.typeUrl).elems (outboxOf s.outbox) .idle idle (Or.inl rfl)
      (insert_subset s.subscribed r.typeUrl) rfl id
    rwa [← idle] at moved
  | subscribe r phase clean noNonce =>
    exact .ask r.typeUrl _ _ (congrArg stageOf phase) (mem_insert.mpr (Or.inl rfl))
      (insert_subset s.subscribed r.typeUrl) rfl id
  | respond typeUrl snap phase =>
    have moved := ReaderStep.answer (c := rendering.channel) (w := w.advertised) (r := readerOf s)
      typeUrl snap (congrArg stageOf phase)
    unfold readerOf
    rw [outbox_push]
    exact moved
  | wake order phase behind visits => exact .wake order (congrArg stageOf phase) behind visits
  | deliver snap typeUrl todo phase =>
    have moved := ReaderStep.visit (c := rendering.channel) (w := w.advertised) (r := readerOf s)
      typeUrl snap todo (congrArg stageOf phase)
    unfold readerOf
    rw [outbox_push]
    exact moved
  | finish snap phase => exact .finish snap (congrArg stageOf phase)
  | close => exact .close _

def streamOf : SystemTask → Option AdsStream
  | .orca _ => none
  | .stream s => some s

theorem stream_iff (t : SystemTask) (s : AdsStream) : streamOf t = some s ↔ t = .stream s := by
  cases t <;> simp [streamOf]

theorem stream_moves {w : Control} {s : AdsStream} (due : (readerOf s).Due w.advertised) :
    ∃ a s', ownAct a ∧ stepStream w s s.phase a = some s' := by
  obtain ⟨receiver, subscribed, outbox, phase⟩ := s
  cases phase with
  | select => exact ⟨.wake subscribed.elems, _, rfl, if_pos ⟨due, List.Perm.refl _⟩⟩
  | subscribing typeUrl snap => exact ⟨.respond, _, rfl, rfl⟩
  | watching snap todo =>
    cases todo with
    | nil => exact ⟨.deliver, _, rfl, rfl⟩
    | cons typeUrl todo => exact ⟨.deliver, _, rfl, rfl⟩
  | closed => exact due.elim

theorem client_changes {w w' : Control} {c c' : OrcaClient} {a : OrcaServer.Act}
    (moved : stepClient w c c.phase a = some (w', c')) : Changes w.advertised w'.advertised := by
  cases client_step moved with
  | publish seen version weighted phase => exact Or.inr ⟨_, rfl⟩
  | _ => exact Or.inl rfl

theorem loop_changes {w w' : Control} {l l' : OrcaLoop} {a : SystemAct}
    (step : LoopStep w l a w' l') : Changes w.advertised w'.advertised := by
  cases step with
  | move a p rests lands silent => exact Or.inl rfl
  | report r w' c phase moved => exact client_changes moved
  | observe a p w' c phase continues moved => exact client_changes moved

def streams : Readers system rendering.channel where
  watch := Control.advertised
  reader t := (streamOf t).map readerOf
  own := ownAct
  spawned w call := by
    cases call with
    | openStream =>
      refine ⟨rfl, ?_⟩
      rintro r ⟨⟩
      exact ⟨rfl, rfl, rfl, fun _ => rfl⟩
  stepped w t a w' t' step := by
    rcases task_step step with ⟨l, l', rfl, rfl, moved⟩ | ⟨s, s', rfl, rfl, rfl, moved⟩
    · exact .other _ _ (loop_changes moved)
    · exact .read _ _ _ (stream_reads moved)
  enabled := by
    refine enabled_of_due SystemTask.stream stream_iff ?_
    intro w s due
    obtain ⟨a, s', own, moved⟩ := stream_moves due
    exact ⟨a, s', own, by simp [system, stepTask, moved]⟩

def sessions : Streams streams AdsStream where
  task := .stream
  streamOf := streamOf
  read := readerOf
  reads _ := rfl
  stream_iff := stream_iff

theorem boot_bare (backends : List (String × String)) :
    ∀ t ∈ (boot backends).tasks, streams.reader t = none := by
  intro t member
  obtain ⟨b, _, rfl⟩ := List.mem_map.mp member
  rfl

/-- Every snapshot that was ever advertised, in order. -/
def history (backends : List (String × String)) (es : List SystemStep) : List Snapshot :=
  streams.history (boot backends) es

/- What the clients publish is what the program publishes -/

def clientChannel (st : State) : Watch Snapshot := st.shared.advertised

theorem projects_sends {st st' : SystemState} {st₀ : State} {es : List SystemStep}
    (projects : Projects st st₀) (run : exec system.next st es = some st') :
    sends system.next streams.channel st es =
      sends server.next clientChannel st₀ (es.filterMap project) := by
  induction es generalizing st st₀ with
  | nil => rfl
  | cons e es ih =>
    obtain ⟨mid, first, rest⟩ := exec_cons_some.mp run
    obtain ⟨st₁, seen, after⟩ := projects_next projects first
    have same : streams.channel mid = clientChannel st₁ :=
      congrArg Control.advertised after.shared.symm
    have same₀ : streams.channel st = clientChannel st₀ :=
      congrArg Control.advertised projects.shared.symm
    rw [sends_cons first, ih after rest, same, same₀]
    cases at_ : project e with
    | none =>
      rw [at_] at seen
      cases Option.some.inj seen
      rw [if_pos rfl, List.nil_append, List.filterMap_cons_none at_]
    | some d =>
      rw [at_] at seen
      obtain ⟨t, moved, done⟩ := exec_cons_some.mp seen
      cases Option.some.inj done
      rw [List.filterMap_cons_some at_, sends_cons moved]

theorem history_projected {backends : List (String × String)} {es : List SystemStep}
    {st : SystemState} (run : exec system.next (boot backends) es = some st) :
    history backends es =
      publications server.next clientChannel (start backends) (es.filterMap project) := by
  have sent := projects_sends (boot_projects backends) run
  unfold history Readers.history publications
  rw [sent]
  rfl

theorem observed_continues {st st' : SystemState} {es : List SystemStep} {i : Nat}
    {a : OrcaServer.Act} (run : exec system.next st es = some st')
    (member : .step i (.observe a) ∈ es) : Continues a := by
  obtain ⟨pre, post, rfl⟩ := List.append_of_mem member
  obtain ⟨mid, _, rest⟩ := exec_append_some.mp run
  obtain ⟨next, moved, _⟩ := exec_cons_some.mp rest
  rcases next_cases moved with ⟨call, eq, _⟩ | ⟨j, b, t, w, t', eq, found, step, rfl⟩
  · cases eq
  · cases eq
    rcases task_step step with ⟨l, l', rfl, rfl, moves⟩ | ⟨s, s', rfl, rfl, rfl, moves⟩
    · cases moves with
      | move a p rests lands silent => exact absurd rfl (silent.2 a)
      | observe a p w' c phase continues client => exact continues
    · cases moves

theorem report_projected {st st' : SystemState} {es : List SystemStep} {i : Nat} {u : ℚ}
    (run : exec system.next st es = some st') (member : .step i (.report u) ∈ es.filterMap project) :
    ∃ r : OrcaLoadReport, .step i (.message (.ok (some r))) ∈ es ∧ r.util = u := by
  obtain ⟨e, inRun, projected⟩ := List.mem_filterMap.mp member
  unfold project at projected
  split at projected
  · cases projected
    exact ⟨_, inRun, rfl⟩
  · cases projected
    exact absurd (observed_continues run inRun) id
  · contradiction

/- Where the weights come from -/

/-- In the run some upstream of this host reported `u`. -/
def Reported (backends : List (String × String)) (es : List Step) (host : String) (u : ℚ) : Prop :=
  ∃ i b, backends[i]? = some b ∧ b.1 = host ∧ .step i (.report u) ∈ es

def Known (backends : List (String × String)) (es : List Step) (util : HashMap String ℚ) : Prop :=
  ∀ host u, util.lookup host = some u → Reported backends es host u

/-- Weights computed from readings that were all reported. -/
def Sourced (backends : List (String × String)) (es : List Step) (weighted : List Weighted) : Prop :=
  ∃ util, Known backends es util ∧ weighted = recompute backends util

def weightedOf : Phase → Option (List Weighted)
  | .computed _ weighted => some weighted
  | .numbered _ _ weighted => some weighted
  | _ => none

structure SourcedSoFar (backends : List (String × String)) (es : List Step) (st : State)
    (published : List Snapshot) : Prop where
  unchanged : st.shared.backends = backends
  named : st.tasks.map OrcaClient.host = backends.map Prod.fst
  known : Known backends es st.shared.util
  computed : ∀ c ∈ st.tasks, ∀ weighted, weightedOf c.phase = some weighted →
    Sourced backends es weighted
  published : ∀ snap ∈ published, ∃ v weighted, snap = build v weighted ∧ Sourced backends es weighted

section Sources
variable {backends : List (String × String)} {es : List Step} {st st' : State} {e : Step}
  {published : List Snapshot}

theorem known_insert {util : HashMap String ℚ} (known : Known backends es util) {host : String} {u : ℚ}
    (reported : Reported backends es host u) : Known backends es (util.insert host u) := by
  intro h v held
  rw [lookup_insert] at held
  split at held
  · rename_i same
    rw [same, ← Option.some.inj held]
    exact reported
  · exact known h v held

theorem sourced_step (before : SourcedSoFar backends es st published) (member : e ∈ es)
    (h : server.next st e = some st') :
    SourcedSoFar backends es st' published ∧
      ∀ snap, clientChannel st' = (clientChannel st).send snap →
        ∃ v weighted, snap = build v weighted ∧ Sourced backends es weighted := by
  have unsent : ∀ snap, clientChannel st ≠ (clientChannel st).send snap := fun snap same =>
    send_moves _ snap same.symm
  rcases next_cases h with ⟨a, _, _⟩ | ⟨i, a, c, w', c', rfl, found, moved, rfl⟩
  · exact nomatch a
  · have own := before.computed c (List.mem_of_getElem? found)
    have step : ClientStep st.shared c a w' c' := client_step moved
    have named := (hosts_set found (client_host step)).trans before.named
    have sourced : (∀ weighted, weightedOf c'.phase = some weighted → Sourced backends es weighted) →
        ∀ d ∈ st.tasks.set i c', ∀ weighted, weightedOf d.phase = some weighted →
          Sourced backends es weighted := by
      intro new d inTasks
      rcases List.mem_or_eq_of_mem_set inTasks with old | rfl
      · exact before.computed d old
      · exact new
    cases step with
    | unmoved u phase same =>
      exact ⟨⟨before.unchanged, named, before.known, sourced own, before.published⟩,
        fun snap sent => absurd sent (unsent snap)⟩
    | store u phase new =>
      have here : (backends.map Prod.fst)[i]? = some c.host := by
        rw [← before.named, List.getElem?_map, found]
        rfl
      rw [List.getElem?_map] at here
      obtain ⟨b, atB, host⟩ := Option.map_eq_some_iff.mp here
      have known := known_insert before.known ⟨i, b, atB, host, member⟩
      exact ⟨⟨before.unchanged, named, known, sourced (by simp [weightedOf]), before.published⟩,
        fun snap sent => absurd sent (unsent snap)⟩
    | compute phase =>
      refine ⟨⟨before.unchanged, named, before.known, sourced ?_, before.published⟩,
        fun snap sent => absurd sent (unsent snap)⟩
      rintro weighted ⟨⟩
      exact ⟨st.shared.util, before.known, by rw [before.unchanged]⟩
    | number seen weighted phase =>
      refine ⟨⟨before.unchanged, named, before.known, sourced ?_, before.published⟩,
        fun snap sent => absurd sent (unsent snap)⟩
      rintro weighted ⟨⟩
      exact own weighted (by rw [phase]; rfl)
    | publish seen version weighted phase =>
      refine ⟨⟨before.unchanged, named, before.known, sourced (by simp [weightedOf]),
        before.published⟩, ?_⟩
      intro snap sent
      have same : build version weighted = snap := congrArg Watch.value sent
      exact ⟨version, weighted, same.symm, own weighted (by rw [phase]; rfl)⟩

theorem publication_changes : ∀ s e t, server.next s e = some t →
    Changes (clientChannel s) (clientChannel t) := by
  intro s e t h
  rcases next_cases h with ⟨a, _, _⟩ | ⟨i, a, c, w', c', rfl, found, moved, rfl⟩
  · exact nomatch a
  · exact client_changes moved

theorem history_sourced (run : exec server.next (start backends) es = some st) :
    ∀ snap ∈ publications server.next clientChannel (start backends) es,
      ∃ v weighted, snap = build v weighted ∧ Sourced backends es weighted := by
  have first : SourcedSoFar backends es (start backends) [(clientChannel (start backends)).value] := by
    have known : Known backends es ∅ := by simp [Known]
    constructor
    case unchanged => rfl
    case named => simp [start, Function.comp_def]
    case known => exact known
    case computed =>
      intro c member weighted held
      obtain ⟨b, _, rfl⟩ := List.mem_map.mp member
      cases held
    case published =>
      intro snap member
      refine ⟨"v1", _, List.mem_singleton.mp member, ∅, known, ?_⟩
      simp [recompute, utilOf, entryOr]
  have last := exec_published (I := SourcedSoFar backends es) ?_ ?_ publication_changes run first
  · exact last.published
  · intro s published e t member before h _
    exact (sourced_step before member h).1
  · intro s published e t snap member before h sent
    obtain ⟨after, new⟩ := sourced_step before member h
    refine { after with published := ?_ }
    intro old inPublished
    rcases List.mem_append.mp inPublished with earlier | last
    · exact before.published old earlier
    · exact List.mem_singleton.mp last ▸ new snap sent

end Sources

/- What the streams are sent -/

theorem build_lookup_other {typeUrl : String} (other : typeUrl ≠ tEndpoint) (v v' : String)
    (weighted weighted' : List Weighted) :
    (build v weighted).byType.lookup typeUrl = (build v' weighted').byType.lookup typeUrl := by
  simp only [build, insertAll, List.foldl_cons, List.foldl_nil, lookup_insert, if_neg other]

theorem build_endpoints (v : String) (weighted : List Weighted) :
    (build v weighted).byType.lookup tEndpoint =
      some [any tEndpoint (.clusterLoadAssignment (OrcaServer.endpoints weighted))] := by
  simp only [build, insertAll, List.foldl_cons, List.foldl_nil, lookup_insert, if_true]

def ReportedBy (backends : List (String × String)) (es : List SystemStep) (host : String)
    (r : OrcaLoadReport) : Prop :=
  ∃ i b, backends[i]? = some b ∧ b.1 = host ∧ .step i (.message (.ok (some r))) ∈ es

/-- An endpoint has its backend's address and the weight of a report of that backend, or
    the one of 0.5 that all start with. -/
structure OfReport (backends : List (String × String)) (es : List SystemStep) (w : Weighted)
    (b : String × String) : Prop where
  address : w.ip = b.2
  bounds : 10 ≤ w.weight ∧ w.weight ≤ 1000
  weight : w.weight = 500 ∨ ∃ r, ReportedBy backends es b.1 r ∧ w.weight = weightFromUtil r.util

section Runs
variable {backends : List (String × String)} {es : List SystemStep} {st : SystemState} {i : Nat}
  {s : AdsStream}

theorem sourced_of_report (run : exec system.next (boot backends) es = some st)
    {weighted : List Weighted} (sourced : Sourced backends (es.filterMap project) weighted) :
    List.Forall₂ (OfReport backends es) weighted backends := by
  obtain ⟨util, known, rfl⟩ := sourced
  unfold recompute
  rw [List.forall₂_map_left_iff, List.forall₂_same]
  intro b _
  have bounds := exact_weight_bounds (utilOf util b.1)
  rw [← weight_from_util_exact] at bounds
  refine ⟨rfl, by constructor <;> simp only <;> omega, ?_⟩
  cases held : util.lookup b.1 with
  | none =>
    refine Or.inl ?_
    have half : weightFromUtil (1 / 2) = 500 := by decide +kernel
    simp only [utilOf, entryOr, held, Option.getD_none, half]
  | some u =>
    obtain ⟨j, d, atD, host, told⟩ := known b.1 u held
    obtain ⟨r, inRun, rfl⟩ := report_projected run told
    refine Or.inr ⟨r, ⟨j, d, atD, host, inRun⟩, ?_⟩
    simp only [utilOf, entryOr, held, Option.getD_some]

/-- In every run of the whole program, whatever the loops and the streams do: what a
    stream has sent follows the snapshots in the order in which they were advertised.
    Only endpoints differ between them, and each time a stream sends endpoints it sends
    those of all backends in their order, each with the weight of some report that this
    very backend made in the run, or of 0.5. -/
theorem weights_come_from_reports (run : exec system.next (boot backends) es = some st)
    (found : st.tasks[i]? = some (.stream s)) :
    (∃ places, InHistory (history backends es) s.outbox.responses places) ∧
    ∀ r ∈ s.outbox.responses,
      (r.typeUrl ≠ tEndpoint →
        ∀ v weighted, (build v weighted).byType.lookup r.typeUrl = some r.resources) ∧
      (r.typeUrl = tEndpoint → ∃ weighted,
        r.resources = [any tEndpoint (.clusterLoadAssignment (OrcaServer.endpoints weighted))] ∧
        List.Forall₂ (OfReport backends es) weighted backends) := by
  obtain ⟨n, places, follows, _⟩ :=
    (sent_in_order (P := streams) (boot_bare backends) run found rfl).sent
  have inHistory : InHistory (history backends es) s.outbox.responses places := in_history follows
  refine ⟨⟨places, inHistory⟩, ?_⟩
  intro r member
  rw [← inHistory.responses] at member
  obtain ⟨x, inPlaces, rfl⟩ := List.mem_map.mp member
  obtain ⟨snap, atPlace, built⟩ := inHistory.rendered x inPlaces
  have published := List.mem_of_getElem? atPlace
  rw [history_projected run] at published
  obtain ⟨st₀, clients, _⟩ := projects_run (boot_projects backends) run
  obtain ⟨v, weighted, rfl, sourced⟩ := history_sourced clients snap published
  obtain ⟨resources, held, eq⟩ := Option.map_eq_some_iff.mp built
  have same : resources = x.1.resources := congrArg DiscoveryResponse.resources eq
  constructor
  · intro other v' weighted'
    rw [build_lookup_other other v' v weighted' weighted, held, same]
  · intro isEndpoint
    refine ⟨weighted, ?_, sourced_of_report run sourced⟩
    rw [isEndpoint, build_endpoints] at held
    rw [← same]
    exact (Option.some.inj held).symm

/-- A client asks for endpoints while the first backend reports 0.9. -/
def reportedStream : List SystemStep :=
  [.spawn .openStream, .step 0 (.connect true), .step 0 (.call true),
    .step 0 (.message (.ok (some (upstreamReport (9 / 10))))),
    .step 2 (.request ⟨tEndpoint, "", "", none⟩), .step 0 (.observe .read),
    .step 0 (.observe .number), .step 2 .respond, .step 0 (.observe .publish),
    .step 2 (.wake [tEndpoint]), .step 2 .deliver, .step 2 .deliver]

theorem weights_of_reported_stream :
    ∃ st s, exec system.next (boot demoBackends) reportedStream = some st ∧
      st.tasks[2]? = some (.stream s) ∧ s.outbox.responses.length = 2 ∧
      ∀ r ∈ s.outbox.responses, r.typeUrl = tEndpoint → ∃ weighted,
        r.resources = [any tEndpoint (.clusterLoadAssignment (OrcaServer.endpoints weighted))] ∧
        List.Forall₂ (OfReport demoBackends reportedStream) weighted demoBackends := by
  obtain ⟨st, s, run, found, sent⟩ :
      ∃ st s, exec system.next (boot demoBackends) reportedStream = some st ∧
        st.tasks[2]? = some (.stream s) ∧ s.outbox.responses.length = 2 := ⟨_, _, rfl, rfl, rfl⟩
  exact ⟨st, s, run, found, sent, fun r member => ((weights_come_from_reports run found).2 r member).2⟩

end Runs

end OrcaStreams
