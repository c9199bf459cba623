import XdsControlPlane.OrcaSystem
import XdsControlPlane.OrcaWeights

/-!
The whole control plane of Chapter 6 against its bare ORCA clients. Connections come
and go and streams are served, but the shared state moves exactly as the clients of
`observe` alone move it: every run projects to one of theirs, and every one of theirs
is the projection of a run. What is known of the clients is known of the program. So
with upstreams whose load never changes each backend is published for once at most.
-/
namespace OrcaRefinement
open ExecutableRuns SharedCells KeyedMaps EnvoyMessages SotwSnapshots OrcaServer OrcaSystem

/-- The event as the clients see it, if they see it. -/
def project : SystemStep → Option Step
  | .step i (.message (.ok (some r))) => some (.step i (.report r.util))
  | .step i (.observe a) => some (.step i a)
  | _ => none

/-- The clients are the loops, and they share one state. -/
structure Projects (st : SystemState) (st₀ : State) : Prop where
  shared : st₀.shared = st.shared
  loops : ∀ (i : Nat) l, st.tasks[i]? = some (.orca l) → st₀.tasks[i]? = some l.client
  clients : ∀ (i : Nat) c, st₀.tasks[i]? = some c → ∃ l, st.tasks[i]? = some (.orca l)

theorem boot_projects (backends : List (String × String)) :
    Projects (boot backends) (start backends) := by
  constructor
  case shared => rfl
  case loops =>
    intro i l found
    obtain ⟨b, inBackends, same⟩ := Option.map_eq_some_iff.mp (List.getElem?_map.symm.trans found)
    cases same
    simp [start, inBackends, OrcaLoop.client]
  case clients =>
    intro i c found
    obtain ⟨b, inBackends, _⟩ := Option.map_eq_some_iff.mp (List.getElem?_map.symm.trans found)
    exact ⟨⟨b.1, .connecting⟩, by simp [boot, inBackends]⟩

section Steps
variable {st : SystemState} {st₀ : State} {w : Control} {i : Nat}

theorem projects_same (projects : Projects st st₀) {t t' : SystemTask}
    (found : st.tasks[i]? = some t)
    (same : ∀ l', t' = .orca l' → ∃ l, t = .orca l ∧ l.client = l'.client)
    (kind : ∀ l, t = .orca l → ∃ l', t' = .orca l') :
    Projects ⟨st.shared, st.tasks.set i t'⟩ st₀ := by
  have inside := (List.getElem?_eq_some_iff.mp found).1
  constructor
  case shared => exact projects.shared
  case loops =>
    intro j l atJ
    rcases getElem?_set_cases atJ with ⟨rfl, isLoop⟩ | ⟨_, old⟩
    · obtain ⟨l₀, rfl, client⟩ := same l isLoop.symm
      exact client ▸ projects.loops j l₀ found
    · exact projects.loops j l old
  case clients =>
    intro j c atJ
    obtain ⟨l, old⟩ := projects.clients j c atJ
    by_cases here : i = j
    · subst here
      obtain ⟨l', rfl⟩ := kind l (Option.some.inj (found.symm.trans old))
      exact ⟨l', List.getElem?_set_self inside⟩
    · exact ⟨l, (List.getElem?_set_ne here).trans old⟩

theorem client_host {w w' : Control} {c c' : OrcaClient} {a : Act} (step : ClientStep w c a w' c') :
    c'.host = c.host := by
  cases step <;> rfl

theorem hosts_set {ts : List OrcaClient} {c c' : OrcaClient} (found : ts[i]? = some c)
    (host : c'.host = c.host) : (ts.set i c').map OrcaClient.host = ts.map OrcaClient.host := by
  obtain ⟨inside, rfl⟩ := List.getElem?_eq_some_iff.mp found
  rw [List.map_set, host]
  have here : (ts.map OrcaClient.host)[i]? = some ts[i].host := by simp [inside]
  obtain ⟨inside', same⟩ := List.getElem?_eq_some_iff.mp here
  rw [← same, List.set_getElem_self inside']

theorem observing_client {w' : Control} {l : OrcaLoop} {c : OrcaClient} {a : Act}
    (step : stepClient w l.client l.client.phase a = some (w', c)) :
    (⟨l.host, .reading c.phase⟩ : OrcaLoop).client = c := by
  have host : l.client.host = l.host := by
    unfold OrcaLoop.client
    cases l.phase <;> rfl
  have same : c.host = l.host := (client_host (client_step step)).trans host
  change (⟨l.host, c.phase⟩ : OrcaClient) = c
  rw [← same]

theorem projects_client (projects : Projects st st₀) {w' : Control} {l : OrcaLoop} {c : OrcaClient}
    {a : Act} (found : st.tasks[i]? = some (.orca l))
    (step : stepClient st.shared l.client l.client.phase a = some (w', c)) :
    ∃ st₁, server.next st₀ (.step i a) = some st₁ ∧
      Projects ⟨w', st.tasks.set i (.orca ⟨l.host, .reading c.phase⟩)⟩ st₁ := by
  have here := projects.loops i l found
  have inside := (List.getElem?_eq_some_iff.mp found).1
  have inside₀ := (List.getElem?_eq_some_iff.mp here).1
  have moved : server.step st₀.shared l.client a = some (w', c) := projects.shared ▸ step
  refine ⟨_, next_step here moved, rfl, ?_, ?_⟩
  · intro j l' atJ
    rcases getElem?_set_cases atJ with ⟨rfl, same⟩ | ⟨other, old⟩
    · cases same
      rw [observing_client step]
      exact List.getElem?_set_self inside₀
    · rw [List.getElem?_set_ne fun eq => other eq.symm]
      exact projects.loops j l' old
  · intro j d atJ
    rcases getElem?_set_cases atJ with ⟨rfl, _⟩ | ⟨other, old⟩
    · exact ⟨_, List.getElem?_set_self inside⟩
    · rw [List.getElem?_set_ne fun eq => other eq.symm]
      exact projects.clients j d old

theorem projects_spawn (projects : Projects st st₀) (s : AdsStream) :
    Projects ⟨st.shared, st.tasks ++ [.stream s]⟩ st₀ := by
  constructor
  case shared => exact projects.shared
  case loops =>
    intro j l atJ
    exact projects.loops j l (getElem?_append_other atJ (by simp))
  case clients =>
    intro j c atJ
    obtain ⟨l, old⟩ := projects.clients j c atJ
    exact ⟨l, by rwa [List.getElem?_append_left (List.getElem?_eq_some_iff.mp old).1]⟩

theorem client_idle {l : OrcaLoop} {p : LoopPhase} (rests : l.client.phase = .idle)
    (lands : (⟨l.host, p⟩ : OrcaLoop).client.phase = .idle) :
    l.client = (⟨l.host, p⟩ : OrcaLoop).client := by
  obtain ⟨host, phase⟩ := l
  cases phase <;> cases p <;> simp_all [OrcaLoop.client]

theorem projects_next {st' : SystemState} {e : SystemStep} (projects : Projects st st₀)
    (h : system.next st e = some st') :
    ∃ st₁, exec server.next st₀ (project e).toList = some st₁ ∧ Projects st' st₁ := by
  rcases next_cases h with ⟨call, rfl, rfl⟩ | ⟨i, a, t, w', t', rfl, found, moved, rfl⟩
  · cases call with
    | openStream => exact ⟨st₀, rfl, projects_spawn projects _⟩
  · have step : OrcaSystem.stepTask st.shared t a = some (w', t') := moved
    rcases task_step step with ⟨l, l', rfl, rfl, moves⟩ | ⟨s, s', rfl, rfl, rfl, moves⟩
    · cases moves with
      | move a p rests lands silent =>
        have unseen : project (.step i a) = none := by
          unfold project
          split
          · rename_i r same
            cases same
            exact absurd rfl (silent.1 r)
          · rename_i b same
            cases same
            exact absurd rfl (silent.2 b)
          · rfl
        refine ⟨st₀, by rw [unseen]; rfl, projects_same projects found ?_ ?_⟩
        · rintro l' ⟨⟩
          exact ⟨l, rfl, client_idle rests lands⟩
        · exact fun _ _ => ⟨_, rfl⟩
      | report r w' c phase client =>
        obtain ⟨st₁, next, after⟩ := projects_client projects found client
        exact ⟨st₁, exec_cons_some.mpr ⟨st₁, next, rfl⟩, after⟩
      | observe a p w' c phase continues client =>
        obtain ⟨st₁, next, after⟩ := projects_client projects found client
        exact ⟨st₁, exec_cons_some.mpr ⟨st₁, next, rfl⟩, after⟩
    · have unseen : project (.step i a) = none := by cases moves <;> rfl
      refine ⟨st₀, by rw [unseen]; rfl, projects_same projects found ?_ ?_⟩
      · rintro l' ⟨⟩
      · rintro l ⟨⟩

theorem projects_run {st' : SystemState} {es : List SystemStep} (projects : Projects st st₀)
    (run : exec system.next st es = some st') :
    ∃ st₁, exec server.next st₀ (es.filterMap project) = some st₁ ∧ Projects st' st₁ := by
  induction es generalizing st st₀ with
  | nil =>
    cases Option.some.inj run
    exact ⟨st₀, rfl, projects⟩
  | cons e es ih =>
    obtain ⟨mid, first, rest⟩ := exec_cons_some.mp run
    obtain ⟨st₁, seen, after⟩ := projects_next projects first
    obtain ⟨st₂, later, last⟩ := ih after rest
    refine ⟨st₂, ?_, last⟩
    have split : (e :: es).filterMap project = (project e).toList ++ es.filterMap project := by
      cases seen_ : project e <;> simp [seen_]
    rw [split]
    exact exec_append_some.mpr ⟨st₁, seen, later⟩

/- From the clients to the program -/

/-- Each loop has yet to connect, with its client idle, or reads messages as the client does. -/
structure Lifts (st : SystemState) (st₀ : State) : Prop where
  shared : st.shared = st₀.shared
  loops : ∀ (i : Nat) c, st₀.tasks[i]? = some c →
    (st.tasks[i]? = some (.orca ⟨c.host, .connecting⟩) ∧ c.phase = .idle) ∨
      st.tasks[i]? = some (.orca ⟨c.host, .reading c.phase⟩)

theorem boot_lifts (backends : List (String × String)) : Lifts (boot backends) (start backends) := by
  refine ⟨rfl, ?_⟩
  intro i c found
  obtain ⟨b, inBackends, rfl⟩ := Option.map_eq_some_iff.mp (List.getElem?_map.symm.trans found)
  exact Or.inl ⟨by simp [boot, inBackends], rfl⟩

theorem loop_next {i : Nat} {l l' : OrcaLoop} {w' : Control} {a : SystemAct}
    (found : st.tasks[i]? = some (.orca l)) (moved : stepLoop st.shared l l.phase a = some (w', l')) :
    system.next st (.step i a) = some ⟨w', st.tasks.set i (.orca l')⟩ := by
  have step : system.step st.shared (.orca l) a = some (w', .orca l') := by
    simp [system, OrcaSystem.stepTask, moved]
  exact next_step found step

theorem lifts_connected (lifts : Lifts st st₀) {c : OrcaClient} (found : st₀.tasks[i]? = some c) :
    ∃ (es : List SystemStep) (st' : SystemState), exec system.next st es = some st' ∧
      es.filterMap project = [] ∧ Lifts st' st₀ ∧
      st'.tasks[i]? = some (.orca ⟨c.host, .reading c.phase⟩) := by
  rcases lifts.loops i c found with ⟨connecting, idle⟩ | reading
  · have inside := (List.getElem?_eq_some_iff.mp connecting).1
    have first := loop_next (a := .connect true) connecting rfl
    have called : (st.tasks.set i (.orca ⟨c.host, .calling⟩))[i]? =
        some (.orca ⟨c.host, .calling⟩) := List.getElem?_set_self inside
    have second : system.next ⟨st.shared, st.tasks.set i (.orca ⟨c.host, .calling⟩)⟩
        (.step i (.call true)) = some _ := loop_next called rfl
    refine ⟨[.step i (.connect true), .step i (.call true)], _,
      exec_cons_some.mpr ⟨_, first, exec_cons_some.mpr ⟨_, second, rfl⟩⟩, rfl, ?_, ?_⟩
    · refine ⟨lifts.shared, ?_⟩
      intro j d atJ
      by_cases here : i = j
      · subst here
        cases found.symm.trans atJ
        refine Or.inr ?_
        rw [idle]
        exact List.getElem?_set_self (by simpa using inside)
      · simp only [List.getElem?_set_ne here]
        exact lifts.loops j d atJ
    · rw [idle]
      exact List.getElem?_set_self (by simpa using inside)
  · exact ⟨[], st, rfl, rfl, lifts, reading⟩

/-- The event of the program that is seen as the client's step. -/
def lifted : Act → SystemAct
  | .report u => .message (.ok (some ⟨u, u⟩))
  | a => .observe a

theorem project_lifted (i : Nat) (a : Act) : project (.step i (lifted a)) = some (.step i a) := by
  cases a with
  | report u => simp [lifted, project, OrcaLoadReport.util]
  | _ => rfl

theorem lifted_step {w w' : Control} {c c' : OrcaClient} {a : Act}
    (moved : stepClient w c c.phase a = some (w', c')) :
    stepLoop w ⟨c.host, .reading c.phase⟩ (.reading c.phase) (lifted a) =
      some (w', ⟨c.host, .reading c'.phase⟩) := by
  obtain ⟨host, phase⟩ := c
  cases client_step moved with
  | unmoved u idle same =>
    cases idle
    simp [stepLoop, lifted, OrcaLoadReport.util, OrcaLoop.client, moved, OrcaLoop.observing]
  | store u idle new =>
    cases idle
    simp [stepLoop, lifted, OrcaLoadReport.util, OrcaLoop.client, moved, OrcaLoop.observing]
  | compute stored =>
    cases stored
    simp [stepLoop, lifted, Continues, OrcaLoop.client, moved, OrcaLoop.observing]
  | number seen weighted computed =>
    cases computed
    simp [stepLoop, lifted, Continues, OrcaLoop.client, moved, OrcaLoop.observing]
  | publish seen version weighted numbered =>
    cases numbered
    simp [stepLoop, lifted, Continues, OrcaLoop.client, moved, OrcaLoop.observing]

theorem lifts_next {st₁ : State} {e : Step} (lifts : Lifts st st₀) (h : server.next st₀ e = some st₁) :
    ∃ es st', exec system.next st es = some st' ∧ es.filterMap project = [e] ∧ Lifts st' st₁ := by
  rcases next_cases h with ⟨a, _, _⟩ | ⟨i, a, c, w', c', rfl, found, moved, rfl⟩
  · exact nomatch a
  · obtain ⟨es, mid, connected, unseen, lifts', reading⟩ := lifts_connected lifts found
    have step : stepClient mid.shared c c.phase a = some (w', c') := lifts'.shared ▸ moved
    have next := loop_next reading (lifted_step step)
    have host : c'.host = c.host := client_host (client_step step)
    refine ⟨es ++ [.step i (lifted a)], _,
      exec_append_some.mpr ⟨mid, connected, exec_cons_some.mpr ⟨_, next, rfl⟩⟩, ?_, rfl, ?_⟩
    · rw [List.filterMap_append, unseen, List.filterMap_cons, project_lifted]
      rfl
    · intro j d atJ
      rcases getElem?_set_cases atJ with ⟨rfl, rfl⟩ | ⟨other, old⟩
      · refine Or.inr ?_
        rw [host]
        exact List.getElem?_set_self (List.getElem?_eq_some_iff.mp reading).1
      · simp only [List.getElem?_set_ne fun eq => other eq.symm]
        exact lifts'.loops j d old

theorem lifts_run {st₁ : State} {es₀ : List Step} (lifts : Lifts st st₀)
    (run : exec server.next st₀ es₀ = some st₁) :
    ∃ es st', exec system.next st es = some st' ∧ es.filterMap project = es₀ := by
  induction es₀ generalizing st st₀ with
  | nil => exact ⟨[], st, rfl, rfl⟩
  | cons e es₀ ih =>
    obtain ⟨mid₀, first, rest⟩ := exec_cons_some.mp run
    obtain ⟨es, mid, begin_, seen, lifts'⟩ := lifts_next lifts first
    obtain ⟨fs, st', later, seenLater⟩ := ih lifts' rest
    refine ⟨es ++ fs, st', exec_append_some.mpr ⟨mid, begin_, later⟩, ?_⟩
    rw [List.filterMap_append, seen, seenLater]
    rfl

end Steps

/-- The control plane and its bare ORCA clients have the same runs, as far as reports
    and the shared state go: connecting, failing and reconnecting, and any number of
    streams with all that their clients say, add nothing and take nothing away. -/
theorem program_refines_clients (backends : List (String × String)) :
    (∀ es st, exec system.next (boot backends) es = some st →
      ∃ st₀, exec server.next (start backends) (es.filterMap project) = some st₀ ∧
        Projects st st₀) ∧
    ∀ es₀ st₀, exec server.next (start backends) es₀ = some st₀ →
      ∃ es st, exec system.next (boot backends) es = some st ∧ es.filterMap project = es₀ ∧
        Projects st st₀ := by
  constructor
  · exact fun es st run => projects_run (boot_projects backends) run
  · intro es₀ st₀ run
    obtain ⟨es, st, lifted, seen⟩ := lifts_run (boot_lifts backends) run
    obtain ⟨st₁, projected, projects⟩ := projects_run (boot_projects backends) lifted
    rw [seen, run] at projected
    cases Option.some.inj projected
    exact ⟨es, st, lifted, seen, projects⟩

end OrcaRefinement
