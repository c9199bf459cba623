import XdsControlPlane.NumberedPublishing
import XdsControlPlane.TlsServer
import XdsControlPlane.DeltaServer
import XdsControlPlane.DeltaDifference

/-!
Rotations of Chapter 3 and bumps of Chapter 4, overtaking one another. Both take
a version with one `fetch_add` and send the snapshot that carries it later, with
nothing to keep the sends in the order of the versions. They are numbered calls
over one watch channel, and the streams are its readers.
-/
namespace PublicationOrder
open ExecutableRuns SharedCells KeyedMaps EnvoyMessages NumberedCalls NumberedPublishing

/- Chapter 4 -/

section Bumps
open DeltaSnapshots DeltaStream DeltaDifference DeltaServer

def routeVersionOf (snap : Snapshot) : String :=
  ((snap.get tRoute routeName).map ResourceEntry.version).getD ""

def routeVersions (r : DeltaDiscoveryResponse) : List String :=
  if r.typeUrl = tRoute then (r.resources.filter fun x => x.name = routeName).map Resource.version
  else []

def bumpCall : ControlTask → Option (NumberedCalls.Call String)
  | .bump (.numbered snap) => some (.holding (routeVersionOf snap))
  | .bump .done => some .done
  | .stream _ => none

/-- The route version a stream is in the middle of sending, and those it has pushed. -/
def routeReads : ControlTask → Option String × List String
  | .bump _ => (none, [])
  | .stream s => (s.phase.sending.map routeVersionOf, s.outbox.flatMap routeVersions)

theorem route_version_of_build (rv : UInt64) (ip : String) :
    routeVersionOf (.build rv ip) = versionLabel rv := by
  simp only [routeVersionOf, build_route, if_true, Option.map_some, Option.getD_some]

theorem sent_route_version {sel : Selection} {typeUrl : String} {snap : Snapshot}
    {vars : StreamVars} {v : String}
    (sent : v ∈ (sendDelta sel typeUrl snap vars).2.toList.flatMap routeVersions) :
    routeVersionOf snap = v := by
  obtain ⟨r, isSent, pushed⟩ := List.mem_flatMap.mp sent
  have response : (sendDelta sel typeUrl snap vars).2 = some r := Option.mem_toList.mp isSent
  unfold routeVersions at pushed
  split at pushed
  · rename_i isRoute
    obtain ⟨x, member, rfl⟩ := List.mem_map.mp pushed
    obtain ⟨listed, named⟩ := List.mem_filter.mp member
    have typed := ((send_delta_spec sel typeUrl snap vars).response r response).1
    have added := added_exactly sel typeUrl snap vars x
    rw [response] at added
    have held := (added.mp listed).2.1
    rw [← typed, isRoute, of_decide_eq_true named] at held
    rw [routeVersionOf, held, Option.map_some, Option.getD_some]
  · simp at pushed

theorem send_reads {current : String} (s : AdsStream) (typeUrl : String) {snap : Snapshot}
    (sending : s.phase.sending = some snap) {next : Phase}
    (continues : next.sending = none ∨ next.sending = some snap) :
    Reads current (routeReads (.stream s)) (routeReads (.stream (s.send exactNames typeUrl snap next))) := by
  have outbox : (s.send exactNames typeUrl snap next).outbox.flatMap routeVersions =
      (sendDelta exactNames typeUrl snap s.vars).2.toList.flatMap routeVersions ++
        s.outbox.flatMap routeVersions := List.flatMap_append
  unfold routeReads
  simp only
  rw [outbox]
  apply Reads.push
  · intro v sent
    rw [sending, Option.map_some, sent_route_version sent]
  · rcases continues with ended | same
    · exact Or.inl (congrArg (Option.map routeVersionOf) ended)
    · exact Or.inr (congrArg (Option.map routeVersionOf) (same.trans sending.symm))

theorem stream_reads {w : Control} {s s' : AdsStream} {a : Act} (step : StreamStep w s a s') :
    Reads (routeVersionOf w.advertised.value) (routeReads (.stream s)) (routeReads (.stream s')) := by
  obtain ⟨b, _, step⟩ := step
  cases step with
  | nack r phase isNack => exact .push _ _ _ [] (by simp) (Or.inr rfl)
  | record r phase clean => exact .take _ _
  | respond typeUrl snap phase =>
    exact send_reads s typeUrl (by rw [phase]; rfl) (Or.inl rfl)
  | wake order phase behind visits => exact .take _ _
  | deliver snap typeUrl todo phase =>
    exact send_reads s typeUrl (by rw [phase]; rfl) (Or.inr rfl)
  | finish snap phase => exact .push _ _ _ [] (by simp) (Or.inl rfl)
  | close => exact .push _ _ _ [] (by simp) (Or.inl rfl)

def bumps : Publisher DeltaServer.server versionLabel (fun _ => True) where
  board w := ⟨w.routeVersion, routeVersionOf w.advertised.value, w.advertised.stamp⟩
  call := bumpCall
  reads := routeReads
  begins
    | .bump => true
    | .openStream _ => false
  spawned w call := by
    cases call with
    | bump =>
      refine ⟨rfl, ?_⟩
      simp only [if_true, DeltaServer.server, DeltaServer.spawn, bumpCall, route_version_of_build]
      exact ⟨trivial, trivial⟩
    | openStream cache => exact ⟨rfl, rfl, rfl⟩
  stepped w t a w' t' _ step := by
    rcases DeltaServer.task_step step with ⟨snap, rfl, rfl, rfl, rfl⟩ | ⟨s, s', rfl, rfl, rfl, moved⟩
    · exact .publish _ rfl
    · exact .work _ (stream_reads moved)

end Bumps

/- Chapter 3 -/

section Rotations
open TlsSnapshots TlsServer

def rotateCall : ControlTask → Option (NumberedCalls.Call String)
  | .rotate (.numbered v) => some (.holding v)
  | .rotate (.built snap) => some (.holding snap.version)
  | .rotate .done => some .done
  | .rotate .failed => none
  | .stream _ => none

/-- The version a stream is in the middle of sending, and those it has pushed. -/
def versionReads : ControlTask → Option String × List String
  | .rotate _ => (none, [])
  | .stream s =>
    (s.phase.sending.map Snapshot.version, s.outbox.responses.map DiscoveryResponse.versionInfo)

theorem push_if_new_versions (typeUrl : String) (snap : Snapshot) (o : Outbox) :
    ∃ fresh, (pushIfNew typeUrl snap o).responses.map DiscoveryResponse.versionInfo =
        fresh ++ o.responses.map DiscoveryResponse.versionInfo ∧
      ∀ v ∈ fresh, v = snap.version := by
  unfold pushIfNew
  split
  · exact ⟨[], rfl, by simp⟩
  · split
    · exact ⟨[], rfl, by simp⟩
    · rename_i resp built
      exact ⟨[resp.versionInfo], rfl, by simp [build_response_version built]⟩

theorem push_reads {current : String} (s : AdsStream) (typeUrl : String) {snap : Snapshot}
    (holds : s.phase.sending = some snap) {next : Phase}
    (continues : next.sending = none ∨ next.sending = some snap) :
    Reads current (versionReads (.stream s))
      (versionReads (.stream { s with outbox := pushIfNew typeUrl snap s.outbox, phase := next })) := by
  obtain ⟨fresh, pushed, versions⟩ := push_if_new_versions typeUrl snap s.outbox
  unfold versionReads
  simp only
  rw [pushed]
  apply Reads.push
  · intro v member
    rw [holds, Option.map_some, versions v member]
  · rcases continues with ended | same
    · exact Or.inl (congrArg (Option.map Snapshot.version) ended)
    · exact Or.inr (congrArg (Option.map Snapshot.version) (same.trans holds.symm))

theorem tls_stream_reads {w : Control} {s s' : AdsStream} {a : Act} (step : StreamStep w s a s') :
    Reads w.advertised.value.version (versionReads (.stream s)) (versionReads (.stream s')) := by
  cases step with
  | note r phase quiet => exact .push _ _ _ [] (by simp) (Or.inr rfl)
  | subscribe r phase clean noNonce => exact .take _ _
  | respond typeUrl snap phase => exact push_reads s typeUrl (by rw [phase]; rfl) (Or.inl rfl)
  | wake order phase behind visits => exact .take _ _
  | deliver snap typeUrl todo phase => exact push_reads s typeUrl (by rw [phase]; rfl) (Or.inr rfl)
  | finish snap phase => exact .push _ _ _ [] (by simp) (Or.inl rfl)
  | close => exact .push _ _ _ [] (by simp) (Or.inl rfl)

/-- Rotations, as long as minting a certificate succeeds. -/
def rotations : Publisher TlsServer.server versionLabel (fun a => a ≠ .mint none) where
  board w := ⟨w.version, w.advertised.value.version, w.advertised.stamp⟩
  call := rotateCall
  reads := versionReads
  begins
    | .rotate => true
    | .openStream => false
  spawned w call := by
    cases call with
    | rotate => exact ⟨rfl, rfl, rfl⟩
    | openStream => exact ⟨rfl, rfl, rfl⟩
  stepped w t a w' t' minted step := by
    rcases TlsServer.task_step step with ⟨r, r', rfl, rfl, moved⟩ | ⟨s, s', rfl, rfl, rfl, moved⟩
    · cases moved with
      | build v cert => exact .work _ (.push _ _ _ [] (by simp) (Or.inr rfl))
      | fail v => exact absurd rfl minted
      | publish snap => exact .publish _ rfl
    · exact .work _ (tls_stream_reads moved)

/- The certificate of each rotation -/

def mintOf (i : Nat) : TlsServer.Step → Option CertPem
  | .step j (.mint cert) => if j = i then cert else none
  | _ => none

def mintedBy (i : Nat) (es : List TlsServer.Step) : Option CertPem := es.findSome? (mintOf i)

def versionAt (st : TlsServer.State) (i : Nat) : String :=
  versionLabel (UInt64.ofNat (rank (rotations.calls st) i + 2))

def CallCertified (ip : String) (es : List TlsServer.Step) (st : TlsServer.State) (i : Nat) :
    ControlTask → Prop
  | .rotate (.numbered _) => mintedBy i es = none
  | .rotate (.built snap) => ∃ c, mintedBy i es = some c ∧ snap = .build (versionAt st i) ip c
  | .rotate .done => ∃ c, mintedBy i es = some c
  | .rotate .failed => False
  | .stream _ => True

/-- Every rotation carries the certificate that it minted, also when it has been advertised. -/
structure Certified (ip : String) (cert : CertPem) (es : List TlsServer.Step)
    (st : TlsServer.State) : Prop where
  upstreamIp : st.shared.upstreamIp = ip
  numbering : Numbering versionLabel st.shared.version (rotations.calls st)
  calls : ∀ (i : Nat) t, st.tasks[i]? = some t → CallCertified ip es st i t
  unborn : ∀ i, st.tasks.length ≤ i → mintedBy i es = none
  advertised : st.shared.advertised.value = .build "v1" ip cert ∨
    ∃ (i : Nat) (c : CertPem), st.tasks[i]? = some (.rotate .done) ∧ mintedBy i es = some c ∧
      st.shared.advertised.value = .build (versionAt st i) ip c

section Certificates
variable {ip : String} {cert : CertPem} {es fs : List TlsServer.Step} {st st' : TlsServer.State}
  {e : TlsServer.Step} {i : Nat}

theorem minted_by_append : mintedBy i (es ++ [e]) = (mintedBy i es).or (mintOf i e) := by
  simp [mintedBy, List.findSome?_append]

theorem call_certified_frame {t : ControlTask} (minted : mintedBy i fs = mintedBy i es)
    (version : versionAt st' i = versionAt st i) (certified : CallCertified ip es st i t) :
    CallCertified ip fs st' i t := by
  unfold CallCertified at certified ⊢
  rw [minted, version]
  exact certified

theorem certified_spawn (ok : Certified ip cert es st) (call : TlsServer.Call)
    (h : TlsServer.server.next st (.spawn call) = some st') :
    Certified ip cert (es ++ [.spawn call]) st' := by
  have move := (rotations.moves (e := .spawn call) nofun h).1
  have silent : ∀ i, mintedBy i (es ++ [.spawn call]) = mintedBy i es := fun i => by
    rw [minted_by_append]
    exact Option.or_none
  have version : ∀ {i}, i ≤ st.tasks.length → versionAt st' i = versionAt st i := fun inside => by
    rw [versionAt, rank_next move inside, versionAt]
  have numbering := numbering_next ok.numbering move
  cases Option.some.inj h
  constructor
  case upstreamIp =>
    rw [← ok.upstreamIp]
    cases call <;> rfl
  case numbering => exact numbering
  case calls =>
    intro i t found
    rcases getElem?_append_one found with old | ⟨rfl, rfl⟩
    · have inside := (List.getElem?_eq_some_iff.mp old).1
      exact call_certified_frame (silent i) (version (Nat.le_of_lt inside)) (ok.calls i t old)
    · cases call with
      | rotate => exact (silent _).trans (ok.unborn _ (Nat.le_refl _))
      | openStream => trivial
  case unborn =>
    intro i outside
    rw [List.length_append, List.length_singleton] at outside
    exact (silent i).trans (ok.unborn i (by omega))
  case advertised =>
    have same : (TlsServer.server.spawn st.shared call).1.advertised = st.shared.advertised := by
      cases call <;> rfl
    rw [same]
    rcases ok.advertised with initial | ⟨i, c, found, minted, current⟩
    · exact Or.inl initial
    · have inside := (List.getElem?_eq_some_iff.mp found).1
      refine Or.inr ⟨i, c, ?_, (silent i).trans minted, ?_⟩
      · rwa [List.getElem?_append_left inside]
      · rw [version (Nat.le_of_lt inside)]
        exact current

theorem minted_by_other {j : Nat} (other : j ≠ i) (a : TlsServer.Act) :
    mintedBy j (es ++ [.step i a]) = mintedBy j es := by
  rw [minted_by_append]
  cases a <;> simp [mintOf, other.symm]

theorem certified_work (ok : Certified ip cert es st) {a : TlsServer.Act} {t t' : ControlTask}
    (found : st.tasks[i]? = some t) (working : t ≠ .rotate .done)
    (numbering : Numbering versionLabel st.shared.version
      (rotations.calls ⟨st.shared, st.tasks.set i t'⟩))
    (version : ∀ {k}, k ≤ st.tasks.length →
      versionAt ⟨st.shared, st.tasks.set i t'⟩ k = versionAt st k)
    (own : CallCertified ip (es ++ [.step i a]) ⟨st.shared, st.tasks.set i t'⟩ i t') :
    Certified ip cert (es ++ [.step i a]) ⟨st.shared, st.tasks.set i t'⟩ := by
  have inside := (List.getElem?_eq_some_iff.mp found).1
  constructor
  case upstreamIp => exact ok.upstreamIp
  case numbering => exact numbering
  case calls =>
    intro j u atJ
    rcases getElem?_set_cases atJ with ⟨rfl, rfl⟩ | ⟨other, old⟩
    · exact own
    · have below := (List.getElem?_eq_some_iff.mp old).1
      exact call_certified_frame (minted_by_other other a) (version (Nat.le_of_lt below))
        (ok.calls j u old)
  case unborn =>
    intro j outside
    rw [List.length_set] at outside
    rw [minted_by_other (by omega)]
    exact ok.unborn j outside
  case advertised =>
    rcases ok.advertised with initial | ⟨k, c, done, minted, current⟩
    · exact Or.inl initial
    · have other : k ≠ i := by
        rintro rfl
        exact working (Option.some.inj (found.symm.trans done))
      have below := (List.getElem?_eq_some_iff.mp done).1
      refine Or.inr ⟨k, c, ?_, ?_, ?_⟩
      · rwa [List.getElem?_set_ne other.symm]
      · rw [minted_by_other other, minted]
      · rw [version (Nat.le_of_lt below)]
        exact current

theorem certified_publish (ok : Certified ip cert es st) {snap : Snapshot}
    (found : st.tasks[i]? = some (.rotate (.built snap)))
    (numbering : Numbering versionLabel st.shared.version
      (rotations.calls ⟨st.shared, st.tasks.set i (.rotate .done)⟩))
    (version : ∀ {k}, k ≤ st.tasks.length →
      versionAt ⟨st.shared, st.tasks.set i (.rotate .done)⟩ k = versionAt st k) :
    Certified ip cert (es ++ [.step i .publish])
      ⟨{ st.shared with advertised := st.shared.advertised.send snap },
        st.tasks.set i (.rotate .done)⟩ := by
  obtain ⟨c, minted, isBuilt⟩ := ok.calls i _ found
  have inside := (List.getElem?_eq_some_iff.mp found).1
  have silent : ∀ j, mintedBy j (es ++ [.step i .publish]) = mintedBy j es := fun j => by
    rw [minted_by_append]
    exact Option.or_none
  constructor
  case upstreamIp => exact ok.upstreamIp
  case numbering => exact numbering
  case calls =>
    intro j u atJ
    rcases getElem?_set_cases atJ with ⟨rfl, rfl⟩ | ⟨_, old⟩
    · exact ⟨c, (silent j).trans minted⟩
    · have below := (List.getElem?_eq_some_iff.mp old).1
      exact call_certified_frame (silent j) (version (Nat.le_of_lt below)) (ok.calls j u old)
  case unborn =>
    intro j outside
    rw [List.length_set] at outside
    exact (silent j).trans (ok.unborn j outside)
  case advertised =>
    refine Or.inr ⟨i, c, List.getElem?_set_self inside, (silent i).trans minted, ?_⟩
    exact isBuilt.trans (congrArg (Snapshot.build · ip c) (version (Nat.le_of_lt inside)).symm)

theorem certified_step (ok : Certified ip cert es st) {a : TlsServer.Act}
    (minted : a ≠ .mint none) (h : TlsServer.server.next st (.step i a) = some st') :
    Certified ip cert (es ++ [.step i a]) st' := by
  have move := (rotations.moves (by rintro _ _ ⟨⟩; exact minted) h).1
  have numbering := numbering_next ok.numbering move
  have version : ∀ {k}, k ≤ st.tasks.length → versionAt st' k = versionAt st k := fun inside => by
    rw [versionAt, rank_next move inside, versionAt]
  rcases next_cases h with ⟨call, eq, _⟩ | ⟨j, b, t, w', t', eq, found, moved, rfl⟩
  · cases eq
  · cases eq
    rcases TlsServer.task_step moved with ⟨r, r', rfl, rfl, step⟩ | ⟨s, s', rfl, rfl, rfl, step⟩
    · cases step with
      | build v c =>
        have unminted : mintedBy i es = none := ok.calls i _ found
        have drew : v = versionAt st i := by
          refine ok.numbering.held i v ?_
          simp only [Publisher.calls, List.getElem?_map, found, Option.map_some]
          rfl
        refine certified_work ok found (by simp) numbering version ⟨c, ?_, ?_⟩
        · rw [minted_by_append, unminted]
          simp [mintOf]
        · have inside := (List.getElem?_eq_some_iff.mp found).1
          rw [version (Nat.le_of_lt inside), ← drew, ok.upstreamIp]
      | fail v => exact absurd rfl minted
      | publish snap => exact certified_publish ok found numbering version
    · exact certified_work ok found (by simp) numbering version trivial

theorem certified_start (ip : String) (cert : CertPem) :
    Certified ip cert [] (TlsServer.start ip cert) :=
  ⟨rfl, numbering_start versionLabel, nofun, fun _ _ => rfl, Or.inl rfl⟩

theorem certified_run (ok : Certified ip cert es st) (minted : ∀ i, .step i (.mint none) ∉ fs)
    (run : exec TlsServer.server.next st fs = some st') : Certified ip cert (es ++ fs) st' := by
  induction fs generalizing st es with
  | nil =>
    cases Option.some.inj run
    rwa [List.append_nil]
  | cons e fs ih =>
    obtain ⟨mid, first, rest⟩ := exec_cons_some.mp run
    have one : Certified ip cert (es ++ [e]) mid := by
      cases e with
      | spawn call => exact certified_spawn ok call first
      | step i a =>
        refine certified_step ok (fun failed => minted i ?_) first
        rw [failed]
        exact List.mem_cons_self
    have later := ih one (fun i member => minted i (List.mem_cons_of_mem e member)) rest
    rwa [List.append_assoc] at later

/-- What is advertised has the counter's version and the certificate that the call with
    that number minted, the last one; with no call so far it is the initial one. -/
inductive NewestCertificate (ip : String) (cert : CertPem) (es : List TlsServer.Step)
    (st : TlsServer.State) : Prop where
  | initial (none : ∀ t ∈ st.tasks, rotateCall t = none)
      (advertised : st.shared.advertised.value = .build (versionLabel st.shared.version) ip cert)
  | minted (i : Nat) (c : CertPem) (done : st.tasks[i]? = some (.rotate .done))
      (last : ∀ j t, i < j → st.tasks[j]? = some t → rotateCall t = none)
      (minted : mintedBy i es = some c)
      (advertised : st.shared.advertised.value = .build (versionLabel st.shared.version) ip c)

def NewestAdvertised (ip : String) (cert : CertPem) (es : List TlsServer.Step) : Prop :=
  ∀ es₁ st, es₁ <+: es → exec TlsServer.server.next (TlsServer.start ip cert) es₁ = some st →
    (∀ t ∈ st.tasks, ∀ v, rotateCall t ≠ some (.holding v)) → NewestCertificate ip cert es₁ st

theorem call_at {t : ControlTask} {c : NumberedCalls.Call String} (found : st.tasks[i]? = some t)
    (isCall : rotateCall t = some c) : (rotations.calls st)[i]? = some (some c) := by
  simp only [Publisher.calls, List.getElem?_map, found, Option.map_some]
  exact congrArg some isCall

theorem newest_certificate (ok : Certified ip cert es st) (quiet : rotations.QuietNewest st)
    (atRest : ∀ t ∈ st.tasks, ∀ v, rotateCall t ≠ some (.holding v)) :
    NewestCertificate ip cert es st := by
  obtain ⟨current, counted⟩ := quiet atRest
  have version : st.shared.advertised.value.version = versionLabel st.shared.version := current
  have number : st.shared.version.toNat = total (rotations.calls st) + 1 := counted
  have few := st.shared.version.toNat_lt
  rcases ok.advertised with initial | ⟨i, c, done, minted, isBuilt⟩
  · have first : versionLabel 1 = "v1" := by decide
    have one : st.shared.version = 1 := by
      rw [initial] at version
      exact version_label_injective (version.symm.trans first.symm)
    refine .initial ?_ (by rw [initial, one, first])
    intro t member
    obtain ⟨j, atJ⟩ := List.mem_iff_getElem?.mp member
    by_contra isCall
    obtain ⟨d, isCall⟩ := Option.ne_none_iff_exists'.mp isCall
    have counts := rank_lt_total (call_at atJ isCall)
    rw [one] at number
    have : (1 : UInt64).toNat = 1 := rfl
    omega
  · have below := rank_lt_total (call_at done rfl)
    have same : UInt64.ofNat (rank (rotations.calls st) i + 2) = st.shared.version := by
      rw [isBuilt] at version
      exact version_label_injective version
    have highest : rank (rotations.calls st) i + 2 = total (rotations.calls st) + 1 := by
      have value := congrArg UInt64.toNat same
      rw [UInt64.toNat_ofNat', Nat.mod_eq_of_lt (by omega), number] at value
      exact value
    refine .minted i c done ?_ minted (by rw [isBuilt, versionAt, same])
    intro j t later atJ
    by_contra isCall
    obtain ⟨d, isCall⟩ := Option.ne_none_iff_exists'.mp isCall
    have after := rank_lt (call_at done rfl) later
    have counts := rank_lt_total (call_at atJ isCall)
    omega

theorem newest_advertised {ip : String} {cert : CertPem} {es : List TlsServer.Step}
    (minted : ∀ i, .step i (.mint none) ∉ es)
    (forward : rotations.GoesForward (TlsServer.start ip cert) es) : NewestAdvertised ip cert es := by
  rintro es₁ st ⟨rest, rfl⟩ run atRest
  have certified : Certified ip cert ([] ++ es₁) st := certified_run (certified_start ip cert)
    (fun i member => minted i (List.mem_append_left _ member)) run
  exact newest_certificate certified (always_reached forward.2.1 run) atRest

end Certificates

end Rotations

/- Both -/

/-- Chapter 3's rotations and Chapter 4's bumps, in any interleaving of fewer than
    2^64: what is published only goes forward, the newest is advertised whenever
    no call is in progress, with the certificate that was minted for it, and no stream
    is pushed an older version after a newer one, if and only if the calls publish in
    the order of their versions. -/
theorem forward_iff_published_in_order (upstreamIp : String) (cert : TlsSnapshots.CertPem)
    (rs : List TlsServer.Step) (bs : List DeltaServer.Step) :
    ((∀ i, .step i (.mint none) ∉ rs) → rs.countP rotations.begun < 2 ^ 64 →
      (rotations.GoesForward (TlsServer.start upstreamIp cert) rs ∧
          NewestAdvertised upstreamIp cert rs ↔
        Along TlsServer.server.next rotations.InOrder (TlsServer.start upstreamIp cert) rs)) ∧
    (bs.countP bumps.begun < 2 ^ 64 →
      (bumps.GoesForward (DeltaServer.start upstreamIp) bs ↔
        Along DeltaServer.server.next bumps.InOrder (DeltaServer.start upstreamIp) bs)) := by
  have first : versionLabel 1 = "v1" := by decide
  constructor
  · intro minted few
    have forward : rotations.GoesForward (TlsServer.start upstreamIp cert) rs ↔
        Along TlsServer.server.next rotations.InOrder (TlsServer.start upstreamIp cert) rs := by
      apply newer_iff_published_in_order version_label_injective rfl first.symm ?_ few
      rintro i x taken rfl
      exact minted i taken
    rw [← forward]
    exact and_iff_left_of_imp (newest_advertised minted)
  · intro few
    have current := route_version_of_build 1 upstreamIp
    exact newer_iff_published_in_order version_label_injective rfl current
      (fun _ _ _ => trivial) few

def rotationsInOrder : List TlsServer.Step :=
  [.spawn .rotate, .spawn .rotate, .step 1 (.mint (some ⟨"second", "key"⟩)),
    .step 0 (.mint (some ⟨"first", "key"⟩)), .step 0 .publish, .step 1 .publish]

def bumpsInOrder : List DeltaServer.Step :=
  [.spawn .bump, .spawn .bump, .step 0 .proceed, .step 1 .proceed]

theorem forward_in_order :
    (rotations.GoesForward (TlsServer.start "10.0.0.1" ⟨"initial", "key"⟩) rotationsInOrder ∧
      NewestAdvertised "10.0.0.1" ⟨"initial", "key"⟩ rotationsInOrder) ∧
    bumps.GoesForward (DeltaServer.start "10.0.0.1") bumpsInOrder := by
  have forward := forward_iff_published_in_order "10.0.0.1" ⟨"initial", "key"⟩ rotationsInOrder
    bumpsInOrder
  constructor
  · apply (forward.1 (by simp [rotationsInOrder]) (by decide)).mpr
    decide
  · apply (forward.2 (by decide)).mpr
    decide

/-- A stream follows the secret while the second of two rotations sends first. -/
def overtakenRotation : List TlsServer.Step :=
  [.spawn .openStream, .step 0 (.request ⟨TlsSnapshots.tSecret, "", "", none⟩), .step 0 .respond,
    .spawn .rotate, .spawn .rotate, .step 1 (.mint (some ⟨"first", "key"⟩)),
    .step 2 (.mint (some ⟨"second", "key"⟩)),
    .step 2 .publish, .step 0 (.wake [TlsSnapshots.tSecret]), .step 0 .deliver, .step 0 .deliver,
    .step 1 .publish, .step 0 (.wake [TlsSnapshots.tSecret]), .step 0 .deliver, .step 0 .deliver]

/-- A stream follows the route while the second of two bumps sends first. -/
def overtakenBump : List DeltaServer.Step :=
  [.spawn (.openStream fun _ _ => none), .step 0 (.request ⟨tRoute, [routeName], [], ∅, "", none⟩),
    .step 0 .respond, .spawn .bump, .spawn .bump,
    .step 2 .proceed, .step 0 (.wake [tRoute]), .step 0 .deliver, .step 0 .deliver,
    .step 1 .proceed, .step 0 (.wake [tRoute]), .step 0 .deliver, .step 0 .deliver]

/-- At rest v2 and its certificate are advertised with v3 handed out, and the
    stream has been pushed v2 after v3. -/
theorem rotation_overtaken :
    ∃ st, exec TlsServer.server.next (TlsServer.start "10.0.0.1" ⟨"initial", "key"⟩)
        overtakenRotation = some st ∧
      rotations.calls st = [none, some .done, some .done] ∧ st.shared.version = 3 ∧
      st.shared.advertised.value.version = "v2" ∧
      st.shared.advertised.value.byType.lookup TlsSnapshots.tSecret =
        some [any TlsSnapshots.tSecret (.secret (TlsSnapshots.secret ⟨"first", "key"⟩))] ∧
      st.tasks.map (fun t => (versionReads t).2) = [["v2", "v3", "v1"], [], []] := by
  refine ⟨_, rfl, ?_, ?_, ?_, ?_, ?_⟩ <;> decide

theorem bump_overtaken :
    ∃ st, exec DeltaServer.server.next (DeltaServer.start "10.0.0.1") overtakenBump = some st ∧
      bumps.calls st = [none, some .done, some .done] ∧ st.shared.routeVersion = 3 ∧
      routeVersionOf st.shared.advertised.value = "v2" ∧
      st.tasks.map (fun t => (routeReads t).2) = [["v2", "v3", "v1"], [], []] := by
  refine ⟨_, rfl, ?_, ?_, ?_, ?_⟩ <;> decide

theorem overtaken_calls_go_back :
    ¬ rotations.GoesForward (TlsServer.start "10.0.0.1" ⟨"initial", "key"⟩) overtakenRotation ∧
    ¬ bumps.GoesForward (DeltaServer.start "10.0.0.1") overtakenBump := by
  constructor
  · obtain ⟨st, run, calls, counter, current, _⟩ := rotation_overtaken
    apply stale_at_rest run
    · simp [calls]
    · change st.shared.advertised.value.version ≠ versionLabel st.shared.version
      rw [current, counter]
      decide
  · obtain ⟨st, run, calls, counter, current, _⟩ := bump_overtaken
    apply stale_at_rest run
    · simp [calls]
    · change routeVersionOf st.shared.advertised.value ≠ versionLabel st.shared.routeVersion
      rw [current, counter]
      decide

end PublicationOrder
