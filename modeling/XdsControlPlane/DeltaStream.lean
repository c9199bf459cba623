import XdsControlPlane.IncrementalSync
import XdsControlPlane.DeltaSnapshots

/-!
The Delta stream of Chapters 4 and 5, `main.rs`: what one stream subscribes to,
what it has sent, and the difference it sends next. The chapters differ in how
a subscription selects names (`Selection`); all else is one code. What is put
on the outbound channel is the second result of `sendDelta`.
-/
namespace DeltaStream
open KeyedMaps IncrementalSync EnvoyMessages DeltaSnapshots

structure TypeSub where
  wildcard : Bool
  names : HashSet String
  deriving DecidableEq, Repr

instance : Inhabited TypeSub := ⟨⟨false, .empty⟩⟩

/-- The loop logs `node` and reads the rest; `response_nonce` only sorts the log line. -/
structure DeltaDiscoveryRequest where
  typeUrl : String
  resourceNamesSubscribe : List String
  resourceNamesUnsubscribe : List String
  initialResourceVersions : HashMap String String
  responseNonce : String
  errorDetail : Option String

abbrev DeltaDiscoveryRequest.IsNack (r : DeltaDiscoveryRequest) : Prop := r.errorDetail.isSome

structure Resource where
  name : String
  version : String
  resource : Any
  deriving DecidableEq, Repr

structure DeltaDiscoveryResponse where
  systemVersionInfo : String
  resources : List Resource
  typeUrl : String
  removedResources : List String
  nonce : String
  deriving DecidableEq, Repr

/-- The loop's local variables. -/
structure StreamVars where
  subs : HashMap String TypeSub
  sent : HashMap String (HashMap String String)
  nonceCtr : UInt64

def StreamVars.opened : StreamVars := ⟨∅, ∅, 0⟩

/- Subscriptions -/

def TypeSub.subscribe (sub : TypeSub) (n : String) : TypeSub :=
  if n = "*" then { sub with wildcard := true } else { sub with names := sub.names.insert n }

def TypeSub.unsubscribe (sub : TypeSub) (n : String) : TypeSub :=
  if n = "*" then { sub with wildcard := false } else { sub with names := sub.names.remove n }

/-- The subscription of the request's type, given the one before if the type is known. -/
def TypeSub.update (r : DeltaDiscoveryRequest) (known : Option TypeSub) : TypeSub :=
  let sub := known.getD default
  let sub := r.resourceNamesSubscribe.foldl TypeSub.subscribe sub
  let sub := r.resourceNamesUnsubscribe.foldl TypeSub.unsubscribe sub
  -- legacy wildcard: a first request for a type that names nothing
  if known.isNone ∧ r.resourceNamesSubscribe.isEmpty ∧ r.resourceNamesUnsubscribe.isEmpty then
    { sub with wildcard := true }
  else sub

/-- The request arm from the check for a NACK to the read of `advertised`. -/
def StreamVars.record (s : StreamVars) (r : DeltaDiscoveryRequest) : StreamVars :=
  { s with
    sent := s.sent.insert r.typeUrl
      (insertAll (entryOr s.sent r.typeUrl ∅) (pairs r.initialResourceVersions))
    subs := s.subs.insert r.typeUrl (TypeSub.update r (s.subs.lookup r.typeUrl)) }

def StreamVars.sub (s : StreamVars) (typeUrl : String) : TypeSub := entryOr s.subs typeUrl default

/-- The version under which a name was last sent, or reported by the client. -/
def StreamVars.ledger (s : StreamVars) (typeUrl name : String) : Option String :=
  (entryOr s.sent typeUrl ∅).lookup name

/- Selecting names -/

structure Selection where
  wanted : TypeSub → Snapshot → String → List String
  stillWanted : TypeSub → String → Bool
  distinct : ∀ sub snap typeUrl, (wanted sub snap typeUrl).Nodup
  agree : ∀ sub snap typeUrl name, (snap.get typeUrl name).isSome →
    (name ∈ wanted sub snap typeUrl ↔ stillWanted sub name)

/-- Chapter 4: names as they are written. -/
def exactNames : Selection where
  wanted sub snap typeUrl := if sub.wildcard then snap.names typeUrl else sub.names.elems
  stillWanted sub name := sub.wildcard || decide (name ∈ sub.names)
  distinct sub snap typeUrl := by
    split
    · exact names_nodup snap typeUrl
    · exact sub.names.nodup
  agree sub snap typeUrl name held := by
    cases sub.wildcard with
    | true => simpa [mem_names] using held
    | false =>
      rw [Bool.false_or, decide_eq_true_iff]
      exact Iff.rfl

/-- `strip_suffix('*')`. -/
def stripStar (s : String) : Option String :=
  match s.toList.reverse with
  | '*' :: rest => some (String.ofList rest.reverse)
  | _ => none

def TypeSub.matches (sub : TypeSub) (name : String) : Bool :=
  sub.wildcard || sub.names.elems.any fun s =>
    match stripStar s with
    | some start => startsWith name start
    | none => s == name

/-- `Vec::dedup`: of names that repeat one after the other the first is kept. -/
def dedup (names : List String) : List String := names.destutter (· ≠ ·)

theorem dedup_sort (names : List String) :
    dedup (names.insertionSort (· ≤ ·)) = (names.insertionSort (· ≤ ·)).dedup :=
  (List.pairwise_insertionSort (· ≤ ·) names).destutter_eq_dedup

/-- Chapter 5: a name ending in `*` stands for a collection. -/
def globNames : Selection where
  wanted sub snap typeUrl :=
    let all := (if sub.wildcard then snap.names typeUrl else []) ++
      sub.names.elems.flatMap fun name =>
        match stripStar name with
        | some start => snap.namesWithPrefix typeUrl start
        | none => [name]
    dedup (all.insertionSort (· ≤ ·))
  stillWanted := TypeSub.matches
  distinct _ _ _ := by
    simp only [dedup_sort]
    exact List.nodup_dedup _
  agree sub snap typeUrl name held := by
    simp only [dedup_sort, List.mem_dedup, List.mem_insertionSort, List.mem_append, List.mem_flatMap,
      TypeSub.matches, Bool.or_eq_true, List.any_eq_true]
    refine or_congr ?_ (exists_congr fun s => and_congr_right fun _ => ?_)
    · cases sub.wildcard <;> simp [mem_names, held]
    · cases stripStar s with
      | some start => simp [mem_prefixed_names, held]
      | none => exact List.mem_singleton.trans (eq_comm.trans beq_iff_eq.symm)

/- The difference -/

def endsWith (s ending : String) : Bool := ending.toList.isSuffixOf s.toList

def toLowercase (s : String) : String := String.ofList (s.toList.map Char.toLower)

def shortType (typeUrl : String) : String :=
  if endsWith typeUrl ".Listener" then "LDS"
  else if endsWith typeUrl ".RouteConfiguration" then "RDS"
  else if endsWith typeUrl ".Cluster" then "CDS"
  else if endsWith typeUrl ".ClusterLoadAssignment" then "EDS"
  else "???"

def changedResources (sel : Selection) (sub : TypeSub) (snap : Snapshot) (typeUrl : String)
    (sentMap : HashMap String String) : List Resource :=
  (sel.wanted sub snap typeUrl).filterMap fun name =>
    (snap.get typeUrl name).bind fun entry =>
      if sentMap.lookup name = some entry.version then none
      else some ⟨name, entry.version, entry.body⟩

def removedNames (sel : Selection) (sub : TypeSub) (snap : Snapshot) (typeUrl : String)
    (sentMap : HashMap String String) : List String :=
  sentMap.keys.filter fun name => sel.stillWanted sub name && (snap.get typeUrl name).isNone

def sendDelta (sel : Selection) (typeUrl : String) (snap : Snapshot) (s : StreamVars) :
    StreamVars × Option DeltaDiscoveryResponse :=
  let s := { s with subs := orDefault s.subs typeUrl default, sent := orDefault s.sent typeUrl ∅ }
  let sub := s.sub typeUrl
  let sentMap := entryOr s.sent typeUrl ∅
  let resources := changedResources sel sub snap typeUrl sentMap
  let removed := removedNames sel sub snap typeUrl sentMap
  if resources.isEmpty ∧ removed.isEmpty then (s, none)
  else
    let sentMap := insertAll sentMap (resources.map fun r => (r.name, r.version))
    let sentMap := eraseAll sentMap removed
    let n := s.nonceCtr + 1
    ({ s with sent := s.sent.insert typeUrl sentMap, nonceCtr := n },
      some
        { systemVersionInfo := snap.systemVersion
          resources := resources
          typeUrl := typeUrl
          removedResources := removed
          nonce := toLowercase (shortType typeUrl) ++ "-" ++ toString n.toNat })

/-- The whole request arm, with the snapshot it finds advertised. -/
def handleRequest (sel : Selection) (s : StreamVars) (r : DeltaDiscoveryRequest) (snap : Snapshot) :
    StreamVars × Option DeltaDiscoveryResponse :=
  if r.IsNack then (s, none) else sendDelta sel r.typeUrl snap (s.record r)

example : (handleRequest exactNames .opened ⟨tRoute, [], [], ∅, "", none⟩ (.build 1 "10.0.0.1")).2.map
    (fun r => (r.nonce, r.resources.map (·.name))) = some ("rds-1", ["primary_route"]) := by decide

/- What a response changes -/

def Resource.entry (r : Resource) : String × ResourceEntry := (r.name, ⟨r.version, r.resource⟩)

def DeltaDiscoveryResponse.delta (r : DeltaDiscoveryResponse) : Delta String ResourceEntry :=
  ⟨r.resources.map Resource.entry, r.removedResources⟩

def deltaOf : Option DeltaDiscoveryResponse → Delta String ResourceEntry
  | some r => r.delta
  | none => ⟨[], []⟩

theorem ledger_eq (s : StreamVars) (typeUrl name : String) :
    s.ledger typeUrl name = (s.sent.lookup typeUrl).bind fun m => m.lookup name := by
  unfold StreamVars.ledger entryOr
  cases s.sent.lookup typeUrl with
  | none => simp
  | some m => rfl

theorem mem_changed {sel : Selection} {sub : TypeSub} {snap : Snapshot} {typeUrl : String}
    {sentMap : HashMap String String} {name : String} {e : ResourceEntry} :
    (name, e) ∈ (changedResources sel sub snap typeUrl sentMap).map Resource.entry ↔
      sel.stillWanted sub name ∧ snap.get typeUrl name = some e ∧
        sentMap.lookup name ≠ some e.version := by
  simp only [changedResources, List.mem_map, List.mem_filterMap, Option.bind_eq_some_iff,
    Option.ite_none_left_eq_some]
  constructor
  · rintro ⟨r, ⟨name', wanted, e', held, moved, eq⟩, same⟩
    cases eq
    cases same
    exact ⟨(sel.agree sub snap typeUrl _ (by rw [held]; rfl)).mp wanted, held, moved⟩
  · rintro ⟨wanted, held, moved⟩
    have selected := (sel.agree sub snap typeUrl name (by rw [held]; rfl)).mpr wanted
    exact ⟨_, ⟨name, selected, e, held, moved, rfl⟩, rfl⟩

theorem changed_distinct (sel : Selection) (sub : TypeSub) (snap : Snapshot) (typeUrl : String)
    (sentMap : HashMap String String) :
    (((changedResources sel sub snap typeUrl sentMap).map Resource.entry).map Prod.fst).Nodup := by
  simp only [changedResources, List.map_filterMap]
  refine List.Nodup.filterMap ?_ (sel.distinct sub snap typeUrl)
  intro a b name fromA fromB
  have named : ∀ c, name ∈ ((snap.get typeUrl c).bind fun entry =>
      if sentMap.lookup c = some entry.version then none
      else some (⟨c, entry.version, entry.body⟩ : Resource)).map
        (Prod.fst ∘ Resource.entry) → c = name := by
    intro c h
    cases held : snap.get typeUrl c <;> simp [held, Resource.entry] at h
    exact h.2
  rw [named a (by simpa using fromA), named b (by simpa using fromB)]

theorem record_subs (s : StreamVars) (r : DeltaDiscoveryRequest) (t : String) :
    (s.record r).subs.lookup t =
      if t = r.typeUrl then some (TypeSub.update r (s.subs.lookup r.typeUrl))
      else s.subs.lookup t := lookup_insert _ _ _ _

theorem record_sub_other {r : DeltaDiscoveryRequest} {t : String} (other : t ≠ r.typeUrl)
    (s : StreamVars) : (s.record r).sub t = s.sub t := by
  rw [StreamVars.sub, entryOr, record_subs, if_neg other]
  rfl

theorem record_ledger (s : StreamVars) (r : DeltaDiscoveryRequest) (t n : String) :
    (s.record r).ledger t n =
      if t = r.typeUrl then (r.initialResourceVersions.lookup n).or (s.ledger t n)
      else s.ledger t n := by
  rw [ledger_eq]
  simp only [StreamVars.record, lookup_insert]
  split
  · rename_i same
    subst same
    exact lookup_insertAll_pairs _ _ _
  · rw [ledger_eq]

/-- `sendDelta` without its two cases: an empty difference sends nothing, and
    storing an empty difference changes nothing. -/
structure SendsDelta (sel : Selection) (typeUrl : String) (snap : Snapshot) (s s' : StreamVars)
    (resp : Option DeltaDiscoveryResponse) : Prop where
  bridges : (deltaOf resp).Bridges (fun n => sel.stillWanted (s.sub typeUrl) n)
    (snap.get typeUrl) ResourceEntry.version (s.ledger typeUrl)
  subs : ∀ t, s'.subs.lookup t =
    if t = typeUrl then some (s.sub typeUrl) else s.subs.lookup t
  ledger : ∀ t, s'.ledger t =
    if t = typeUrl then ((deltaOf resp).relabel ResourceEntry.version).apply (s.ledger typeUrl)
    else s.ledger t
  nonceCtr : s'.nonceCtr = s.nonceCtr + if resp.isSome then 1 else 0
  response : ∀ r, resp = some r → r.typeUrl = typeUrl ∧ r.systemVersionInfo = snap.systemVersion ∧
    (r.resources ≠ [] ∨ r.removedResources ≠ [])

theorem send_bridges (sel : Selection) (typeUrl : String) (snap : Snapshot) (sub : TypeSub)
    (sentMap : HashMap String String) :
    Delta.Bridges
      ⟨(changedResources sel sub snap typeUrl sentMap).map Resource.entry,
        removedNames sel sub snap typeUrl sentMap⟩
      (fun n => sel.stillWanted sub n) (snap.get typeUrl) ResourceEntry.version
      (fun n => sentMap.lookup n) := by
  refine ⟨fun n e => mem_changed, fun n => ?_, changed_distinct sel sub snap typeUrl sentMap⟩
  simp only [removedNames, List.mem_filter, Bool.and_eq_true, Option.isNone_iff_eq_none,
    ← AList.mem_keys, ne_eq, AList.lookup_eq_none, not_not]
  constructor
  · rintro ⟨known, wanted, gone⟩
    exact ⟨wanted, gone, known⟩
  · rintro ⟨wanted, gone, known⟩
    exact ⟨known, wanted, gone⟩

theorem empty_relabel_apply (ledger : String → Option String) :
    (Delta.relabel (⟨[], []⟩ : Delta String ResourceEntry) ResourceEntry.version).apply ledger =
      ledger := rfl

theorem send_delta_spec (sel : Selection) (typeUrl : String) (snap : Snapshot) (s : StreamVars) :
    SendsDelta sel typeUrl snap s (sendDelta sel typeUrl snap s).1
      (sendDelta sel typeUrl snap s).2 := by
  have bridges := send_bridges sel typeUrl snap (s.sub typeUrl) (entryOr s.sent typeUrl ∅)
  have sameSub : StreamVars.sub
      ⟨orDefault s.subs typeUrl default, orDefault s.sent typeUrl ∅, s.nonceCtr⟩ typeUrl =
      s.sub typeUrl := entry_orDefault s.subs typeUrl typeUrl default
  unfold sendDelta
  simp only [sameSub, entry_orDefault]
  split
  · rename_i quiet
    simp only [List.isEmpty_iff] at quiet
    rw [quiet.1, quiet.2] at bridges
    refine ⟨bridges, fun t => lookup_orDefault s.subs t typeUrl default, fun t => ?_, by simp, by simp⟩
    funext n
    rw [StreamVars.ledger, entry_orDefault]
    split
    · rename_i same
      subst same
      exact (congrFun (empty_relabel_apply (s.ledger t)) n).symm
    · rfl
  · rename_i moved
    refine ⟨bridges, fun t => lookup_orDefault s.subs t typeUrl default, fun t => ?_, by simp, ?_⟩
    · funext n
      rw [ledger_eq, lookup_insert]
      split
      · rename_i same
        subst same
        simp only [Option.bind_some, lookup_eraseAll, lookup_insertAll]
        simp only [deltaOf, Delta.relabel, Delta.apply, DeltaDiscoveryResponse.delta, List.map_map]
        rfl
      · rename_i other
        rw [ledger_eq, lookup_orDefault, if_neg other]
    · rintro r ⟨⟩
      simp only [List.isEmpty_iff, not_and_or] at moved
      exact ⟨rfl, rfl, moved⟩

/- The client's cache -/

/-- What the client holds, by type and name. -/
abbrev Cache := String → String → Option ResourceEntry

def Cache.receive (c : Cache) : Option DeltaDiscoveryResponse → Cache
  | some resp => fun t => if t = resp.typeUrl then resp.delta.apply (c t) else c t
  | none => c

theorem send_ledger (sel : Selection) (snap : Snapshot) (s : StreamVars) (typeUrl t n : String) :
    (sendDelta sel typeUrl snap s).1.ledger t n =
      if t = typeUrl then ((deltaOf (sendDelta sel typeUrl snap s).2).relabel
        ResourceEntry.version).apply (s.ledger typeUrl) n
      else s.ledger t n := by
  refine (congrFun ((send_delta_spec sel typeUrl snap s).ledger t) n).trans ?_
  split <;> rfl

theorem send_receive (sel : Selection) (snap : Snapshot) (s : StreamVars) (c : Cache)
    (typeUrl t n : String) :
    c.receive (sendDelta sel typeUrl snap s).2 t n =
      if t = typeUrl then (deltaOf (sendDelta sel typeUrl snap s).2).apply (c typeUrl) n
      else c t n := by
  have spec := (send_delta_spec sel typeUrl snap s).response
  cases sent : (sendDelta sel typeUrl snap s).2 with
  | none =>
    simp only [Cache.receive, deltaOf, Delta.apply, dropAll, storeAll, List.foldl_nil]
    split
    · rename_i same
      rw [same]
    · rfl
  | some resp =>
    have named := (spec resp sent).1
    simp only [Cache.receive, named]
    split
    · rename_i same
      rw [same]
      rfl
    · rfl

theorem send_subs_known (sel : Selection) (snap : Snapshot) (s : StreamVars) {typeUrl : String}
    (known : (s.subs.lookup typeUrl).isSome) (t : String) :
    (sendDelta sel typeUrl snap s).1.subs.lookup t = s.subs.lookup t := by
  obtain ⟨sub, held⟩ := Option.isSome_iff_exists.mp known
  refine ((send_delta_spec sel typeUrl snap s).subs t).trans ?_
  split
  · rename_i same
    rw [same, held, StreamVars.sub, entryOr, held, Option.getD_some]
  · rfl

theorem sub_after_send (sel : Selection) (typeUrl : String) (snap : Snapshot) (s : StreamVars)
    (t : String) : (sendDelta sel typeUrl snap s).1.sub t = s.sub t := by
  have after := (send_delta_spec sel typeUrl snap s).subs t
  unfold StreamVars.sub entryOr at after ⊢
  rw [after]
  split
  · rename_i same
    rw [same, Option.getD_some]
  · rfl

/- The loop and its channel -/

/-- The loop's variables and what it has put on the outbound channel, latest first. -/
structure Loop where
  vars : StreamVars
  outbox : List DeltaDiscoveryResponse

def Loop.opened : Loop := ⟨.opened, []⟩

def Loop.put (l : Loop) (result : StreamVars × Option DeltaDiscoveryResponse) : Loop :=
  ⟨result.1, result.2.toList ++ l.outbox⟩

def Loop.visit (sel : Selection) (snap : Snapshot) (l : Loop) (typeUrl : String) : Loop :=
  l.put (sendDelta sel typeUrl snap l.vars)

end DeltaStream
