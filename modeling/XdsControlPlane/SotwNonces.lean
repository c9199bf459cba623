import XdsControlPlane.SotwConvergence

/-!
The nonces of one stream. A nonce is the type's short name and the snapshot's
version, nothing more, and `push_if_new` remembers the last version sent only.
So two responses share a nonce exactly when a version comes back on the stream
after another one of its type, as it does after every rollback that is seen.
-/
namespace SotwNonces
open ExecutableRuns SharedCells KeyedMaps EnvoyMessages SotwSnapshots SotwServer SotwConvergence

def DistinctNonces (i : Nat) (st : State) : Prop :=
  ∀ s, st.tasks[i]? = some (.stream s) → (s.outbox.responses.map (·.nonce)).Nodup

def Phase.pushing : Phase → Act → Option (String × Snapshot)
  | .subscribing typeUrl snap, .respond => some (typeUrl, snap)
  | .watching snap (typeUrl :: _), .deliver => some (typeUrl, snap)
  | _, _ => none

/-- A version other than the last one sent for the type is new to the type. -/
def Fresh (o : Outbox) (typeUrl : String) (snap : Snapshot) : Prop :=
  o.sentVersion.lookup typeUrl ≠ some snap.version →
    ∀ r ∈ o.responses, r.typeUrl = typeUrl → r.versionInfo ≠ snap.version

/- A nonce names a type and a version -/

theorem string_append_inj {a b c d : String} (length : a.length = b.length)
    (same : a ++ c = b ++ d) : a = b ∧ c = d := by
  have chars : a.toList ++ c.toList = b.toList ++ d.toList := by
    rw [← String.toList_append, same, String.toList_append]
  obtain ⟨front, back⟩ := List.append_inj chars (by rwa [String.length_toList, String.length_toList])
  exact ⟨String.toList_inj.mp front, String.toList_inj.mp back⟩

theorem short_inj : ∀ a ∈ [tListener, tRoute, tCluster, tEndpoint],
    ∀ b ∈ [tListener, tRoute, tCluster, tEndpoint],
    (short a).length = (short b).length ∧ (short a = short b → a = b) := by decide

structure Rendered (r : DiscoveryResponse) : Prop where
  held : r.typeUrl ∈ [tListener, tRoute, tCluster, tEndpoint]
  nonce : r.nonce = short r.typeUrl ++ "-" ++ r.versionInfo

theorem nonce_inj {r q : DiscoveryResponse} (hr : Rendered r) (hq : Rendered q) :
    r.nonce = q.nonce ↔ r.typeUrl = q.typeUrl ∧ r.versionInfo = q.versionInfo := by
  rw [hr.nonce, hq.nonce]
  constructor
  · intro same
    obtain ⟨length, inj⟩ := short_inj _ hr.held _ hq.held
    rw [String.append_assoc, String.append_assoc] at same
    obtain ⟨front, back⟩ := string_append_inj length same
    exact ⟨inj front, (string_append_inj rfl back).2⟩
  · rintro ⟨typeUrl, version⟩
    rw [typeUrl, version]

theorem built_rendered {version ip : String} {broken : Bool} {typeUrl : String}
    {resp : DiscoveryResponse}
    (built : (Snapshot.build version ip broken).buildResponse typeUrl = some resp) :
    Rendered resp := by
  obtain ⟨named, sameVersion, nonce⟩ := build_response_fields built
  refine ⟨?_, by rw [nonce, named, sameVersion]⟩
  rw [named]
  exact (build_holds_iff version ip broken typeUrl).mp (by rw [built]; rfl)

theorem issued_rendered {w : World} (ok : WorldOk w) {snap : Snapshot} (known : snap ∈ w.issued)
    {typeUrl : String} {resp : DiscoveryResponse} (built : snap.buildResponse typeUrl = some resp) :
    Rendered resp := by
  obtain ⟨version, broken, eq⟩ := ok.built snap known
  exact built_rendered (eq ▸ built)

/- One step of the stream -/

theorem stream_step_pushing {w w' : World} {s s' : AdsStream} {a : Act}
    (h : StreamStep w s a w' s') :
    (∃ typeUrl snap, Phase.pushing s.phase a = some (typeUrl, snap) ∧
      s.phase.sending = some snap ∧ s'.outbox = pushIfNew typeUrl snap s.outbox) ∨
    (Phase.pushing s.phase a = none ∧ s'.outbox = s.outbox) := by
  cases h with
  | respond typeUrl snap phase =>
    exact Or.inl ⟨typeUrl, snap, by simp [phase, Phase.pushing], (respond_pays phase).sending, rfl⟩
  | deliver snap typeUrl todo phase =>
    exact Or.inl ⟨typeUrl, snap, by simp [phase, Phase.pushing], (deliver_pays phase).sending, rfl⟩
  | finish snap phase => exact Or.inr ⟨by simp [phase, Phase.pushing], rfl⟩
  | nack r phase isNack => exact Or.inr ⟨by simp [phase, Phase.pushing], rfl⟩
  | subscribe r phase isSubscribe => exact Or.inr ⟨by simp [phase, Phase.pushing], rfl⟩
  | ack r phase notNack answers => exact Or.inr ⟨by simp [phase, Phase.pushing], rfl⟩
  | rollback good phase => exact Or.inr ⟨by simp [phase, Phase.pushing], rfl⟩
  | wake order phase behind visits => exact Or.inr ⟨by simp [phase, Phase.pushing], rfl⟩
  | close notNacking => exact Or.inr ⟨by unfold Phase.pushing; split <;> simp_all, rfl⟩

theorem push_if_new_distinct {w : World} {o : Outbox} (world : WorldOk w)
    (ok : OutboxOk w.issued o) {snap : Snapshot} (known : snap ∈ w.issued) (typeUrl : String)
    (before : (o.responses.map (·.nonce)).Nodup) :
    ((pushIfNew typeUrl snap o).responses.map (·.nonce)).Nodup ↔ Fresh o typeUrl snap := by
  have rendered : ∀ r ∈ o.responses, Rendered r := fun r member => by
    obtain ⟨origin, knownOrigin, built⟩ := ok.rendered r member
    exact issued_rendered world knownOrigin built
  rcases push_if_new_cases typeUrl snap o with ⟨same, skipped⟩ | ⟨resp, built, moved, sent⟩
  · rw [same]
    refine iff_of_true before fun moved r member named => ?_
    rcases skipped with sameVersion | unheld
    · exact absurd sameVersion moved
    · -- a type the snapshots do not hold is never answered
      obtain ⟨origin, knownOrigin, builtOrigin⟩ := ok.rendered r member
      obtain ⟨version, broken, eq⟩ := world.built snap known
      have held : (snap.buildResponse typeUrl).isSome :=
        eq ▸ (build_holds_iff version _ broken typeUrl).mpr (named ▸ (rendered r member).held)
      simp [unheld] at held
  · obtain ⟨named, version, _⟩ := build_response_fields built
    have isRendered := issued_rendered world known built
    rw [sent, List.map_cons, List.nodup_cons]
    simp only [before, and_true, List.mem_map, not_exists, not_and]
    constructor
    · intro new _ r member sameType sameVersion
      refine new r member ((nonce_inj (rendered r member) isRendered).mpr ⟨?_, ?_⟩)
      · rw [sameType, named]
      · rw [sameVersion, version]
    · intro fresh r member sameNonce
      obtain ⟨sameType, sameVersion⟩ := (nonce_inj (rendered r member) isRendered).mp sameNonce
      exact fresh moved r member (sameType.trans named) (sameVersion.trans version)

/- What a stream is handed -/

/-- The `push_if_new` call that a task makes with a step. -/
def ControlTask.pushing : ControlTask → Act → Option (String × Snapshot)
  | .push _, _ => none
  | .stream s, a => Phase.pushing s.phase a

/-- The `push_if_new` call that stream `i` makes with an event. -/
def handedBy (i : Nat) (st : State) : Step → Option (String × Snapshot)
  | .spawn _ => none
  | .step j a => if j = i then st.tasks[i]?.bind fun t => ControlTask.pushing t a else none

def handed (i : Nat) : State → List Step → List (String × Snapshot)
  | _, [] => []
  | st, e :: es =>
    match server.next st e with
    | none => []
    | some st' => (handedBy i st e).toList ++ handed i st' es

def versionsOf (typeUrl : String) (calls : List (String × Snapshot)) : List String :=
  (calls.filter fun c => c.1 = typeUrl).map fun c => c.2.version

/-- No version comes back after another one. -/
def NeverBack (versions : List String) : Prop := ∀ u v, [v, u, v].Sublist versions → u = v

/-- A pattern that ends in `x`, found in a list that ends in `v`: either it ends before
    that or `x` is `v`. -/
theorem pattern_append {α : Type} {pattern before : List α} {x v : α}
    (found : (pattern ++ [x]).Sublist (before ++ [v])) :
    (pattern ++ [x]).Sublist before ∨ (x = v ∧ pattern.Sublist before) := by
  obtain ⟨front, rest, split, inFront, inRest⟩ := List.sublist_append_iff.mp found
  rcases List.sublist_singleton.mp inRest with rfl | rfl
  · rw [List.append_nil] at split
    exact Or.inl (split ▸ inFront)
  · obtain ⟨rfl, last⟩ := List.append_inj' split rfl
    exact Or.inr ⟨List.singleton_inj.mp last, inFront⟩

theorem never_back_append {versions : List String} {v : String} :
    NeverBack (versions ++ [v]) ↔
      NeverBack versions ∧ (v ∈ versions → versions.getLast? = some v) := by
  constructor
  · intro never
    refine ⟨fun u x back => never u x (back.trans (List.sublist_append_left _ _)), fun member => ?_⟩
    rcases List.eq_nil_or_concat versions with rfl | ⟨before, last, rfl⟩
    · simp at member
    · rw [List.concat_eq_append] at member never ⊢
      rw [List.getLast?_concat]
      rcases List.mem_append.mp member with earlier | same
      · have back : [v, last, v].Sublist (before ++ [last] ++ [v]) :=
          ((List.singleton_sublist.mpr earlier).append (List.Sublist.refl [last])).append
            (List.Sublist.refl [v])
        rw [never last v back]
      · rw [List.mem_singleton.mp same]
  · rintro ⟨never, newest⟩ u x back
    rcases pattern_append (show ([x, u] ++ [x]).Sublist (versions ++ [v]) from back) with inside | ⟨rfl, pair⟩
    · exact never u x inside
    · -- the version handed now is also the one handed before, so `u` is it or stands earlier
      obtain ⟨before, rfl⟩ : ∃ before, versions = before ++ [x] := by
        have last := newest (pair.subset List.mem_cons_self)
        exact ⟨_, (List.dropLast_append_getLast? x last).symm⟩
      rcases pattern_append (show ([x] ++ [u]).Sublist _ from pair) with earlier | ⟨same, _⟩
      · exact never u x (earlier.append (List.Sublist.refl [x]))
      · exact same

def outboxAt (i : Nat) (st : State) : Outbox :=
  match st.tasks[i]? with
  | some (.stream s) => s.outbox
  | _ => ⟨∅, []⟩

theorem distinct_iff {i : Nat} {st : State} :
    DistinctNonces i st ↔ ((outboxAt i st).responses.map (·.nonce)).Nodup := by
  unfold DistinctNonces outboxAt
  split
  · rename_i s found
    constructor
    · intro distinct
      exact distinct s found
    · intro nodup u atI
      cases found.symm.trans atI
      exact nodup
  · rename_i other
    exact iff_of_true (fun s found => absurd found (other s)) List.nodup_nil

theorem outbox_at_ok {i : Nat} {st : State} (ok : ServerOk st) :
    OutboxOk st.shared.issued (outboxAt i st) := by
  unfold outboxAt
  split
  · rename_i s found
    exact (ok.task i _ found : StreamOk st.shared s).outbox
  · exact ⟨fun _ => rfl, nofun⟩

theorem handed_issued {i : Nat} {st : State} {e : Step} (ok : ServerOk st) {typeUrl : String}
    {snap : Snapshot} (call : handedBy i st e = some (typeUrl, snap)) : snap ∈ st.shared.issued := by
  cases e with
  | spawn c => cases call
  | step j a =>
    simp only [handedBy] at call
    split at call
    · obtain ⟨t, found, pushing⟩ := Option.bind_eq_some_iff.mp call
      cases t with
      | push p => cases pushing
      | stream s =>
        have stream : StreamOk st.shared s := ok.task i _ found
        refine stream.sending snap ?_
        have pushes : Phase.pushing s.phase a = some (typeUrl, snap) := pushing
        unfold Phase.pushing at pushes
        split at pushes <;> cases pushes
        · rename_i phase
          rw [phase]; rfl
        · rename_i phase
          rw [phase]; rfl
    · cases call

theorem outbox_next {i : Nat} {st st' : State} {e : Step} (h : server.next st e = some st') :
    outboxAt i st' = match handedBy i st e with
      | some (typeUrl, snap) => pushIfNew typeUrl snap (outboxAt i st)
      | none => outboxAt i st := by
  rcases next_cases h with ⟨c, rfl, rfl⟩ | ⟨j, a, t, w', t', rfl, found, moved, rfl⟩
  · simp only [handedBy, outboxAt]
    rcases Nat.lt_trichotomy i st.tasks.length with inside | rfl | outside
    · rw [List.getElem?_append_left inside]
    · rw [List.getElem?_concat_length, List.getElem?_eq_none (Nat.le_refl _)]
      cases c <;> rfl
    · rw [List.getElem?_eq_none (by simp; omega), List.getElem?_eq_none (by omega)]
  · by_cases same : j = i
    · subst same
      have inside := (List.getElem?_eq_some_iff.mp found).1
      simp only [handedBy, if_true, found, Option.bind_some, outboxAt, List.getElem?_set_self inside]
      rcases task_step moved with ⟨p, p', rfl, rfl, step⟩ | ⟨s, s', rfl, rfl, step⟩
      · rfl
      · rcases stream_step_pushing step with ⟨typeUrl, snap, pushing, _, sent⟩ | ⟨none, sent⟩
        · simp only [ControlTask.pushing, pushing, sent]
        · simp only [ControlTask.pushing, none, sent]
    · simp only [handedBy, if_neg same, outboxAt, List.getElem?_set_ne same]

def heldTypes : List String := [tListener, tRoute, tCluster, tEndpoint]

/-- What the stream has sent and remembers, by the calls that it was handed. -/
structure Follows (o : Outbox) (calls : List (String × Snapshot)) : Prop where
  last : ∀ t ∈ heldTypes, o.sentVersion.lookup t = (versionsOf t calls).getLast?
  sent : ∀ t ∈ heldTypes, ∀ v, v ∈ versionsOf t calls ↔
    ∃ r ∈ o.responses, r.typeUrl = t ∧ r.versionInfo = v

section Calls
variable {i : Nat} {st st' : State} {w : World} {o : Outbox} {calls : List (String × Snapshot)}
  {t u : String} {snap : Snapshot}

theorem versions_of_append (t : String) (calls later : List (String × Snapshot)) :
    versionsOf t (calls ++ later) = versionsOf t calls ++ versionsOf t later := by
  simp only [versionsOf, List.filter_append, List.map_append]

theorem versions_of_own (calls : List (String × Snapshot)) (t : String) (snap : Snapshot) :
    versionsOf t (calls ++ [(t, snap)]) = versionsOf t calls ++ [snap.version] := by
  rw [versions_of_append]
  simp [versionsOf]

theorem versions_of_other (calls : List (String × Snapshot)) (snap : Snapshot) (other : u ≠ t) :
    versionsOf u (calls ++ [(t, snap)]) = versionsOf u calls := by
  rw [versions_of_append]
  simp [versionsOf, other.symm]

theorem held_built (world : WorldOk w) (issued : snap ∈ w.issued) :
    (snap.buildResponse t).isSome ↔ t ∈ heldTypes := by
  obtain ⟨version, broken, rfl⟩ := world.built snap issued
  exact build_holds_iff version _ broken t

theorem push_unheld (world : WorldOk w) (issued : snap ∈ w.issued) (unheld : t ∉ heldTypes)
    (o : Outbox) : pushIfNew t snap o = o := by
  rcases push_if_new_cases t snap o with ⟨same, _⟩ | ⟨resp, built, _, _⟩
  · exact same
  · exact absurd ((held_built world issued).mp (by rw [built]; rfl)) unheld

/-- A call changes what is known of its own type only. -/
theorem follows_call {o' : Outbox} (follows : Follows o calls)
    (last : t ∈ heldTypes → o'.sentVersion.lookup t = some snap.version)
    (sent : t ∈ heldTypes → ∀ v, (∃ r ∈ o'.responses, r.typeUrl = t ∧ r.versionInfo = v) ↔
      (∃ r ∈ o.responses, r.typeUrl = t ∧ r.versionInfo = v) ∨ v = snap.version)
    (lastOther : ∀ u ∈ heldTypes, u ≠ t → o'.sentVersion.lookup u = o.sentVersion.lookup u)
    (sentOther : ∀ u ∈ heldTypes, u ≠ t → ∀ v,
      (∃ r ∈ o'.responses, r.typeUrl = u ∧ r.versionInfo = v) ↔
        ∃ r ∈ o.responses, r.typeUrl = u ∧ r.versionInfo = v) :
    Follows o' (calls ++ [(t, snap)]) := by
  constructor
  case last =>
    intro u held
    by_cases own : u = t
    · subst own
      rw [last held, versions_of_own, List.getLast?_concat]
    · rw [lastOther u held own, versions_of_other calls snap own, follows.last u held]
  case sent =>
    intro u held v
    by_cases own : u = t
    · subst own
      rw [versions_of_own, sent held, ← follows.sent u held, List.mem_append, List.mem_singleton]
    · rw [sentOther u held own, versions_of_other calls snap own, follows.sent u held]

theorem follows_skipped (follows : Follows o calls)
    (current : t ∈ heldTypes → o.sentVersion.lookup t = some snap.version) :
    Follows o (calls ++ [(t, snap)]) := by
  refine follows_call follows current (fun held v => ?_) (fun _ _ _ => rfl) fun _ _ _ _ => Iff.rfl
  have known : snap.version ∈ versionsOf t calls := by
    have newest := current held
    rw [follows.last t held] at newest
    exact List.mem_of_getLast? newest
  rw [← follows.sent t held]
  exact (or_iff_left_of_imp fun same => by rwa [same]).symm

theorem follows_push (world : WorldOk w) (issued : snap ∈ w.issued) (follows : Follows o calls)
    (t : String) : Follows (pushIfNew t snap o) (calls ++ [(t, snap)]) := by
  rcases push_if_new_cases t snap o with ⟨same, skipped⟩ | ⟨resp, built, _, sent⟩
  · rw [same]
    refine follows_skipped follows fun held => ?_
    rcases skipped with current | unheld
    · exact current
    · have isHeld := (held_built world issued).mpr held
      simp [unheld] at isHeld
  · obtain ⟨named, version, _⟩ := build_response_fields built
    rw [sent]
    refine follows_call follows ?last ?sent ?lastOther ?sentOther
    case last =>
      intro _
      rw [lookup_insert, if_pos rfl]
    case sent =>
      intro _ v
      simp only [List.exists_mem_cons_iff, named, version, true_and]
      rw [or_comm, eq_comm]
    case lastOther =>
      intro u _ other
      rw [lookup_insert, if_neg other]
    case sentOther =>
      intro u _ other v
      simp only [List.exists_mem_cons_iff, named]
      exact or_iff_right fun both => other both.1.symm

theorem fresh_iff (follows : Follows o calls) (held : t ∈ heldTypes) :
    Fresh o t snap ↔ (snap.version ∈ versionsOf t calls →
      (versionsOf t calls).getLast? = some snap.version) := by
  unfold Fresh
  rw [follows.last t held, follows.sent t held]
  constructor
  · rintro fresh ⟨r, sent, named, version⟩
    by_contra moved
    exact fresh moved r sent named version
  · intro newest moved r sent named version
    exact moved (newest ⟨r, sent, named, version⟩)

/-- One call: the nonces stay distinct if it brings no version of its type back. -/
theorem distinct_push (world : WorldOk w) (ok : OutboxOk w.issued o) (issued : snap ∈ w.issued)
    (follows : Follows o calls) (before : (o.responses.map (·.nonce)).Nodup)
    (never : ∀ u ∈ heldTypes, NeverBack (versionsOf u calls)) :
    ((pushIfNew t snap o).responses.map (·.nonce)).Nodup ↔
      ∀ u ∈ heldTypes, NeverBack (versionsOf u (calls ++ [(t, snap)])) := by
  have others : ∀ u ∈ heldTypes, u ≠ t → NeverBack (versionsOf u (calls ++ [(t, snap)])) := by
    intro u held other
    rw [versions_of_other calls snap other]
    exact never u held
  by_cases held : t ∈ heldTypes
  · have own : NeverBack (versionsOf t (calls ++ [(t, snap)])) ↔ Fresh o t snap := by
      rw [versions_of_own, never_back_append, fresh_iff follows held]
      exact and_iff_right (never t held)
    rw [push_if_new_distinct world ok issued t before, ← own]
    constructor
    · intro ownNever u heldU
      by_cases same : u = t
      · exact same ▸ ownNever
      · exact others u heldU same
    · exact fun all => all t held
  · rw [push_unheld world issued held]
    exact iff_of_true before fun u heldU => others u heldU (ne_of_mem_of_not_mem heldU held)

theorem never_back_prefix {versions later : List String} (never : NeverBack (versions ++ later)) :
    NeverBack versions := fun u v back => never u v (back.trans (List.sublist_append_left _ _))

theorem follows_next {e : Step} (ok : ServerOk st) (follows : Follows (outboxAt i st) calls)
    (h : server.next st e = some st') :
    Follows (outboxAt i st') (calls ++ (handedBy i st e).toList) := by
  have moves := outbox_next (i := i) h
  cases call : handedBy i st e with
  | none =>
    rw [call] at moves
    rw [moves, Option.toList_none, List.append_nil]
    exact follows
  | some c =>
    obtain ⟨t, snap⟩ := c
    rw [call] at moves
    rw [moves]
    exact follows_push ok.shared (handed_issued ok call) follows t

/-- One event: the nonces stay distinct if it hands the stream no version back. -/
theorem distinct_next {e : Step} (ok : ServerOk st) (follows : Follows (outboxAt i st) calls)
    (distinct : DistinctNonces i st) (never : ∀ t ∈ heldTypes, NeverBack (versionsOf t calls))
    (h : server.next st e = some st') :
    DistinctNonces i st' ↔
      ∀ t ∈ heldTypes, NeverBack (versionsOf t (calls ++ (handedBy i st e).toList)) := by
  have moves := outbox_next (i := i) h
  rw [distinct_iff] at distinct ⊢
  cases call : handedBy i st e with
  | none =>
    rw [call] at moves
    rw [moves, Option.toList_none, List.append_nil]
    exact iff_of_true distinct never
  | some c =>
    obtain ⟨t, snap⟩ := c
    rw [call] at moves
    rw [moves]
    exact distinct_push ok.shared (outbox_at_ok ok) (handed_issued ok call) follows distinct never

theorem distinct_run {es : List Step} (ok : ServerOk st) (follows : Follows (outboxAt i st) calls)
    (distinct : DistinctNonces i st) (never : ∀ t ∈ heldTypes, NeverBack (versionsOf t calls)) :
    Always server.next (DistinctNonces i) st es ↔
      ∀ t ∈ heldTypes, NeverBack (versionsOf t (calls ++ handed i st es)) := by
  induction es generalizing st calls with
  | nil =>
    simp only [Always, handed, List.append_nil]
    exact iff_of_true distinct never
  | cons e es ih =>
    simp only [Always, distinct, true_and, handed]
    cases h : server.next st e with
    | none =>
      simp only [List.append_nil]
      exact iff_of_true (by simp) never
    | some st' =>
      have later : (∀ s, some st' = some s → Always server.next (DistinctNonces i) s es) ↔
          Always server.next (DistinctNonces i) st' es := by simp
      rw [later, ← List.append_assoc]
      have one := distinct_next ok follows distinct never h
      by_cases stays : DistinctNonces i st'
      · exact ih (server_ok_next ok h) (follows_next ok follows h) stays (one.mp stays)
      · refine iff_of_false (fun all => stays (always_first all)) fun all => stays (one.mpr ?_)
        intro u held
        have whole := all u held
        rw [versions_of_append] at whole
        exact never_back_prefix whole

end Calls

/-- In every run, the responses of a stream carry distinct nonces if and only if, of
    each type that the snapshots hold, no version is handed to `push_if_new` again
    after another one. -/
theorem distinct_nonces_iff_never_back (ip : String) (i : Nat) (es : List Step) :
    Always server.next (DistinctNonces i) (start ip) es ↔
      ∀ t ∈ heldTypes, NeverBack (versionsOf t (handed i (start ip) es)) := by
  have nothing : Follows (outboxAt i (start ip)) [] := by
    constructor
    · exact fun _ _ => rfl
    · exact fun _ _ _ => iff_of_false nofun nofun
  have never : ∀ t ∈ heldTypes, NeverBack (versionsOf t []) := fun _ _ _ _ back => nomatch back
  exact distinct_run (start_ok ip) nothing nofun never

theorem rollback_repeats_nonce :
    (∃ st s, exec server.next (start "10.0.0.1") (brokenPush ++ rejection) = some st ∧
      st.tasks[0]? = some (.stream s) ∧
      s.outbox.responses.map (·.nonce) = ["lds-v1", "lds-v2", "lds-v1"]) ∧
    ¬ Always server.next (DistinctNonces 0) (start "10.0.0.1") (brokenPush ++ rejection) := by
  have reached : ∃ st s, exec server.next (start "10.0.0.1") (brokenPush ++ rejection) = some st ∧
      st.tasks[0]? = some (.stream s) ∧
      s.outbox.responses.map (·.nonce) = ["lds-v1", "lds-v2", "lds-v1"] :=
    ⟨_, _, rfl, rfl, by decide⟩
  refine ⟨reached, fun all => ?_⟩
  obtain ⟨st, s, run, found, nonces⟩ := reached
  have distinct := always_last all run s found
  rw [nonces] at distinct
  exact absurd distinct (by decide)

end SotwNonces
