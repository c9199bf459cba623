import XdsControlPlane.DeltaStream

/-!
What one `send_delta` does, said without its algorithm: the difference between
what a subscription picks in the snapshot and what the stream has sent. Additions
and removals are searched for in two ways, over the snapshot and over the ledger;
the difference they add up to is exact, and sending it closes it.
-/
namespace DeltaDifference
open KeyedMaps IncrementalSync EnvoyMessages DeltaSnapshots DeltaStream

/- The difference -/

/-- The snapshot holds `x` under a name that is picked, and it was last sent
    under another version, if at all. -/
def Added (picks : String → Bool) (typeUrl : String) (snap : Snapshot) (s : StreamVars)
    (x : Resource) : Prop :=
  picks x.name ∧ snap.get typeUrl x.name = some ⟨x.version, x.resource⟩ ∧
    s.ledger typeUrl x.name ≠ some x.version

def Dropped (picks : String → Bool) (typeUrl : String) (snap : Snapshot) (s : StreamVars)
    (name : String) : Prop :=
  picks name ∧ snap.get typeUrl name = none ∧ s.ledger typeUrl name ≠ none

def Nothing (picks : String → Bool) (typeUrl : String) (snap : Snapshot) (s : StreamVars) : Prop :=
  (∀ x, ¬ Added picks typeUrl snap s x) ∧ ∀ n, ¬ Dropped picks typeUrl snap s n

def resourcesOf : Option DeltaDiscoveryResponse → List Resource
  | some r => r.resources
  | none => []

def removedOf : Option DeltaDiscoveryResponse → List String
  | some r => r.removedResources
  | none => []

/-- `resp` is the whole difference between `snap` and what `s` has sent of a
    type, once each, and `s'` is `s` with that difference sent. -/
structure ExactDifference (picks : String → Bool) (typeUrl : String) (snap : Snapshot)
    (s s' : StreamVars) (resp : Option DeltaDiscoveryResponse) : Prop where
  added : ∀ x, x ∈ resourcesOf resp ↔ Added picks typeUrl snap s x
  addedOnce : ((resourcesOf resp).map Resource.name).Nodup
  dropped : ∀ n, n ∈ removedOf resp ↔ Dropped picks typeUrl snap s n
  droppedOnce : (removedOf resp).Nodup
  silent : resp = none ↔ Nothing picks typeUrl snap s
  counted : s'.nonceCtr = s.nonceCtr + if resp.isSome then 1 else 0
  still : s'.nonceCtr = s.nonceCtr ↔ Nothing picks typeUrl snap s
  addressed : ∀ r, resp = some r → r.typeUrl = typeUrl ∧ r.systemVersionInfo = snap.systemVersion ∧
    r.nonce = toLowercase (shortType typeUrl) ++ "-" ++ toString s'.nonceCtr.toNat
  picked : ∀ n, picks n → s'.ledger typeUrl n = (snap.get typeUrl n).map ResourceEntry.version
  unpicked : ∀ n, ¬ picks n → s'.ledger typeUrl n = s.ledger typeUrl n
  otherTypes : ∀ t, t ≠ typeUrl → s'.sent.lookup t = s.sent.lookup t
  subscriptions : ∀ t, s'.sub t = s.sub t

/- What a send leaves behind -/

theorem sent_other_type (sel : Selection) (typeUrl : String) (snap : Snapshot) (s : StreamVars)
    {t : String} (other : t ≠ typeUrl) :
    (sendDelta sel typeUrl snap s).1.sent.lookup t = s.sent.lookup t := by
  unfold sendDelta
  simp only
  split
  · rw [lookup_orDefault, if_neg other]
  · rw [lookup_insert, if_neg other, lookup_orDefault, if_neg other]

theorem sent_type_known (sel : Selection) (typeUrl : String) (snap : Snapshot) (s : StreamVars) :
    ((sendDelta sel typeUrl snap s).1.sent.lookup typeUrl).isSome := by
  unfold sendDelta
  simp only
  split
  · rw [lookup_orDefault, if_pos rfl, Option.isSome_some]
  · rw [lookup_insert, if_pos rfl, Option.isSome_some]

theorem subs_type_known (sel : Selection) (typeUrl : String) (snap : Snapshot) (s : StreamVars) :
    ((sendDelta sel typeUrl snap s).1.subs.lookup typeUrl).isSome := by
  rw [(send_delta_spec sel typeUrl snap s).subs, if_pos rfl, Option.isSome_some]

theorem send_nonce (sel : Selection) (typeUrl : String) (snap : Snapshot) (s : StreamVars)
    {r : DeltaDiscoveryResponse} (sent : (sendDelta sel typeUrl snap s).2 = some r) :
    r.nonce = toLowercase (shortType typeUrl) ++ "-" ++
      toString (sendDelta sel typeUrl snap s).1.nonceCtr.toNat := by
  unfold sendDelta at sent ⊢
  simp only at sent ⊢
  split at sent
  · contradiction
  · rename_i moved
    cases sent
    rw [if_neg moved]

theorem removed_distinct (sel : Selection) (sub : TypeSub) (snap : Snapshot) (typeUrl : String)
    (sentMap : HashMap String String) :
    (removedNames sel sub snap typeUrl sentMap).Nodup :=
  sentMap.keys_nodup.filter _

/-- A type that is known and in sync is passed over, and nothing is written. -/
theorem send_in_sync (sel : Selection) {typeUrl : String} {snap : Snapshot} {s : StreamVars}
    (subscribed : (s.subs.lookup typeUrl).isSome) (known : (s.sent.lookup typeUrl).isSome)
    (inSync : ∀ n, sel.stillWanted (s.sub typeUrl) n →
      s.ledger typeUrl n = (snap.get typeUrl n).map ResourceEntry.version) :
    sendDelta sel typeUrl snap s = (s, none) := by
  have bridges := send_bridges sel typeUrl snap (s.sub typeUrl) (entryOr s.sent typeUrl ∅)
  have noneAdded : changedResources sel (s.sub typeUrl) snap typeUrl
      (entryOr s.sent typeUrl ∅) = [] := by
    rw [List.eq_nil_iff_forall_not_mem]
    intro x member
    obtain ⟨wanted, held, stale⟩ := mem_changed.mp (List.mem_map_of_mem (f := Resource.entry) member)
    have current := inSync x.name wanted
    rw [held, Option.map_some] at current
    exact stale current
  have noneDropped : removedNames sel (s.sub typeUrl) snap typeUrl
      (entryOr s.sent typeUrl ∅) = [] := by
    rw [List.eq_nil_iff_forall_not_mem]
    intro n member
    obtain ⟨wanted, gone, sent⟩ := (bridges.removals n).mp member
    have current := inSync n wanted
    rw [gone, Option.map_none] at current
    exact sent current
  unfold sendDelta
  simp only [orDefault_known subscribed, orDefault_known known]
  rw [noneAdded, noneDropped]
  simp

/- Exactness -/

theorem mem_upserts {resp : Option DeltaDiscoveryResponse} {x : Resource} :
    (x.name, ⟨x.version, x.resource⟩) ∈ (deltaOf resp).upserts ↔ x ∈ resourcesOf resp := by
  cases resp with
  | none => simp [deltaOf, resourcesOf]
  | some r =>
    simp only [deltaOf, DeltaDiscoveryResponse.delta, resourcesOf, List.mem_map]
    constructor
    · rintro ⟨y, member, same⟩
      cases y
      cases x
      cases same
      exact member
    · intro member
      exact ⟨x, member, rfl⟩

theorem upsert_names (resp : Option DeltaDiscoveryResponse) :
    (deltaOf resp).upserts.map Prod.fst = (resourcesOf resp).map Resource.name := by
  cases resp with
  | none => rfl
  | some r => simp [deltaOf, DeltaDiscoveryResponse.delta, resourcesOf, Resource.entry]

theorem removals_eq (resp : Option DeltaDiscoveryResponse) :
    (deltaOf resp).removals = removedOf resp := by
  cases resp <;> rfl

theorem removed_once (sel : Selection) (typeUrl : String) (snap : Snapshot) (s : StreamVars) :
    (removedOf (sendDelta sel typeUrl snap s).2).Nodup := by
  unfold sendDelta
  simp only
  split
  · exact List.nodup_nil
  · exact removed_distinct _ _ _ _ _

section Send
variable (sel : Selection) (typeUrl : String) (snap : Snapshot) (s : StreamVars)

theorem added_exactly (x : Resource) : x ∈ resourcesOf (sendDelta sel typeUrl snap s).2 ↔
    Added (sel.stillWanted (s.sub typeUrl)) typeUrl snap s x :=
  mem_upserts.symm.trans
    ((send_delta_spec sel typeUrl snap s).bridges.upserts x.name ⟨x.version, x.resource⟩)

theorem dropped_exactly (n : String) : n ∈ removedOf (sendDelta sel typeUrl snap s).2 ↔
    Dropped (sel.stillWanted (s.sub typeUrl)) typeUrl snap s n := by
  rw [← removals_eq]
  exact (send_delta_spec sel typeUrl snap s).bridges.removals n

theorem silent_iff : (sendDelta sel typeUrl snap s).2 = none ↔
    Nothing (sel.stillWanted (s.sub typeUrl)) typeUrl snap s := by
  have added := added_exactly sel typeUrl snap s
  have dropped := dropped_exactly sel typeUrl snap s
  constructor
  · intro unsent
    rw [unsent] at added dropped
    constructor
    · intro x isAdded
      exact List.not_mem_nil ((added x).mpr isAdded)
    · intro n isDropped
      exact List.not_mem_nil ((dropped n).mpr isDropped)
  · rintro ⟨noneAdded, noneDropped⟩
    cases sent : (sendDelta sel typeUrl snap s).2 with
    | none => rfl
    | some r =>
      rw [sent] at added dropped
      rcases ((send_delta_spec sel typeUrl snap s).response r sent).2.2 with more | fewer
      · obtain ⟨x, member⟩ := List.exists_mem_of_ne_nil _ more
        exact absurd ((added x).mp member) (noneAdded x)
      · obtain ⟨n, member⟩ := List.exists_mem_of_ne_nil _ fewer
        exact absurd ((dropped n).mp member) (noneDropped n)

theorem sends_exact_difference :
    ExactDifference (sel.stillWanted (s.sub typeUrl)) typeUrl snap s
      (sendDelta sel typeUrl snap s).1 (sendDelta sel typeUrl snap s).2 := by
  have spec := send_delta_spec sel typeUrl snap s
  have ledger := fun n => send_ledger sel snap s typeUrl typeUrl n
  simp only [if_pos] at ledger
  constructor
  case added => exact added_exactly sel typeUrl snap s
  case addedOnce =>
    rw [← upsert_names]
    exact spec.bridges.distinct
  case dropped => exact dropped_exactly sel typeUrl snap s
  case droppedOnce => exact removed_once sel typeUrl snap s
  case silent => exact silent_iff sel typeUrl snap s
  case counted => exact spec.nonceCtr
  case still =>
    rw [← silent_iff, spec.nonceCtr]
    cases (sendDelta sel typeUrl snap s).2 with
    | none => simp
    | some r => simp
  case addressed =>
    intro r sent
    obtain ⟨named, version, _⟩ := spec.response r sent
    exact ⟨named, version, send_nonce sel typeUrl snap s sent⟩
  case picked =>
    intro n picked
    exact (ledger n).trans (ledger_wanted spec.bridges picked)
  case unpicked =>
    intro n unpicked
    exact (ledger n).trans (ledger_unwanted spec.bridges unpicked)
  case otherTypes =>
    intro t other
    exact sent_other_type sel typeUrl snap s other
  case subscriptions => exact sub_after_send sel typeUrl snap s

theorem send_twice :
    sendDelta sel typeUrl snap (sendDelta sel typeUrl snap s).1 =
      ((sendDelta sel typeUrl snap s).1, none) := by
  apply send_in_sync sel (subs_type_known sel typeUrl snap s) (sent_type_known sel typeUrl snap s)
  intro n wanted
  rw [sub_after_send] at wanted
  exact (sends_exact_difference sel typeUrl snap s).picked n wanted

end Send

/-- Chapter 5: whatever mix of wildcard, names and globs a subscription has, what
    is sent is exact, a repetition is silent, and the expansion over the snapshot
    and the match by name pick the same of the names that exist. -/
theorem glob_difference_exact (typeUrl : String) (snap : Snapshot) (s : StreamVars) :
    ExactDifference (s.sub typeUrl).matches typeUrl snap s
      (sendDelta globNames typeUrl snap s).1 (sendDelta globNames typeUrl snap s).2 ∧
    sendDelta globNames typeUrl snap (sendDelta globNames typeUrl snap s).1 =
      ((sendDelta globNames typeUrl snap s).1, none) ∧
    ∀ sub : TypeSub, ∀ n,
      n ∈ globNames.wanted sub snap typeUrl ∧ (snap.get typeUrl n).isSome ↔
        sub.matches n ∧ (snap.get typeUrl n).isSome := by
  refine ⟨sends_exact_difference globNames typeUrl snap s, send_twice globNames typeUrl snap s, ?_⟩
  intro sub n
  exact and_congr_left fun held => globNames.agree sub snap typeUrl n held

end DeltaDifference
