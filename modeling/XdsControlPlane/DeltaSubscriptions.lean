import XdsControlPlane.ExecutableRuns
import XdsControlPlane.DeltaStream

/-!
One Delta stream over all its requests, and the client at its other end. The
client keeps what it is sent and folds its own requests into what it wants; the
stream does the same, but not for a request that also reports an error. A run
picks the snapshot that each arm finds advertised, whatever was published.
-/
namespace DeltaSubscriptions
open ExecutableRuns KeyedMaps IncrementalSync EnvoyMessages DeltaSnapshots DeltaStream

/-- `requests` are those the stream has taken, in order. `dropped` marks what the
    client deleted when it unsubscribed and was not sent since. -/
structure Session where
  stream : StreamVars
  requests : List DeltaDiscoveryRequest
  cache : Cache
  dropped : String → String → Bool

inductive Stimulus where
  | request : DeltaDiscoveryRequest → Snapshot → Stimulus
  | changed : Snapshot → List String → Stimulus

def Session.opened (cache : Cache) : Session := ⟨.opened, [], cache, fun _ _ => false⟩

def subscribed (requests : List DeltaDiscoveryRequest) : String → Option TypeSub :=
  requests.foldl (fun f r t => if t = r.typeUrl then some (TypeSub.update r (f r.typeUrl)) else f t)
    fun _ => none

/-- Names the client stops wanting with this request, which it then deletes. -/
def Session.loses (sel : Selection) (ss : Session) (r : DeltaDiscoveryRequest) (name : String) :
    Bool :=
  let old := subscribed ss.requests r.typeUrl
  sel.stillWanted (old.getD default) name && !sel.stillWanted (TypeSub.update r old) name

def Session.take (sel : Selection) (ss : Session) (r : DeltaDiscoveryRequest) : Session :=
  { stream := if r.IsNack then ss.stream else ss.stream.record r
    requests := ss.requests ++ [r]
    cache := fun t n => if t = r.typeUrl ∧ ss.loses sel r n then none else ss.cache t n
    dropped := fun t n =>
      (t = r.typeUrl ∧ ss.loses sel r n ∧ (ss.cache t n).isSome) || ss.dropped t n }

def Session.send (sel : Selection) (snap : Snapshot) (ss : Session) (typeUrl : String) : Session :=
  let (stream, resp) := sendDelta sel typeUrl snap ss.stream
  { ss with
    stream := stream
    cache := ss.cache.receive resp
    dropped := fun t n =>
      ss.dropped t n && !(t = typeUrl ∧ (n ∈ (deltaOf resp).upserts.map Prod.fst ∨
        n ∈ (deltaOf resp).removals)) }

def Session.step (sel : Selection) (ss : Session) : Stimulus → Option Session
  | .request r snap =>
    let ss := ss.take sel r
    some (if r.IsNack then ss else ss.send sel snap r.typeUrl)
  | .changed snap order =>
    if order.Perm ss.stream.subs.keys then some (order.foldl (Session.send sel snap) ss) else none

variable {sel : Selection}

theorem take_stream (ss : Session) {r : DeltaDiscoveryRequest} (clean : ¬ r.IsNack) :
    (ss.take sel r).stream = ss.stream.record r := if_neg clean

theorem step_nack (ss : Session) {r : DeltaDiscoveryRequest} (nack : r.IsNack) (snap : Snapshot) :
    ss.step sel (.request r snap) = some (ss.take sel r) := by
  simp only [Session.step, if_pos nack]

theorem step_clean (ss : Session) {r : DeltaDiscoveryRequest} (clean : ¬ r.IsNack)
    (snap : Snapshot) :
    ss.step sel (.request r snap) = some ((ss.take sel r).send sel snap r.typeUrl) := by
  simp only [Session.step, if_neg clean]

theorem step_changed {ss ss' : Session} {snap : Snapshot} {order : List String}
    (h : ss.step sel (.changed snap order) = some ss') :
    order.Perm ss.stream.subs.keys ∧ ss' = order.foldl (Session.send sel snap) ss := by
  simp only [Session.step] at h
  split at h
  · rename_i visits
    exact ⟨visits, (Option.some.inj h).symm⟩
  · contradiction

/-- The stream's part of a request step is the source's request arm. -/
theorem request_stream {ss ss' : Session} {r : DeltaDiscoveryRequest} {snap : Snapshot}
    (h : ss.step sel (.request r snap) = some ss') :
    ss'.stream = (handleRequest sel ss.stream r snap).1 := by
  unfold handleRequest
  by_cases nack : r.IsNack
  · rw [step_nack ss nack] at h
    cases h
    rw [if_pos nack]
    exact if_pos nack
  · rw [step_clean ss nack] at h
    cases h
    rw [if_neg nack, ← take_stream ss nack]
    rfl

/- Subscriptions as sets of names -/

/-- The subscription as requests name it: `*` for the wildcard flag. -/
def TypeSub.has (sub : TypeSub) (n : String) : Bool :=
  if n = "*" then sub.wildcard else n ∈ sub.names

structure SameSub (a b : TypeSub) : Prop where
  wildcard : a.wildcard = b.wildcard
  names : ∀ n, n ≠ "*" → (n ∈ a.names ↔ n ∈ b.names)

theorem same_sub_iff {a b : TypeSub} : SameSub a b ↔ ∀ n, TypeSub.has a n ↔ TypeSub.has b n := by
  constructor
  · intro same n
    unfold TypeSub.has
    split
    · rw [same.wildcard]
    · rename_i named
      rw [decide_eq_true_iff, decide_eq_true_iff]
      exact same.names n named
  · intro same
    refine ⟨Bool.eq_iff_iff.mpr (same "*"), fun n named => ?_⟩
    simpa [TypeSub.has, named] using same n

theorem has_subscribe (sub : TypeSub) (m n : String) :
    TypeSub.has (sub.subscribe m) n ↔ TypeSub.has sub n ∨ n = m := by
  unfold TypeSub.has TypeSub.subscribe
  by_cases star : m = "*"
  · by_cases named : n = "*" <;> simp [star, named]
  · by_cases named : n = "*"
    · have other : ¬ "*" = m := fun same => star same.symm
      simp [star, named, other]
    · simp [star, named, or_comm]

theorem has_unsubscribe (sub : TypeSub) (m n : String) :
    TypeSub.has (sub.unsubscribe m) n ↔ TypeSub.has sub n ∧ n ≠ m := by
  unfold TypeSub.has TypeSub.unsubscribe
  by_cases star : m = "*"
  · by_cases named : n = "*" <;> simp [star, named]
  · by_cases named : n = "*"
    · have other : ¬ "*" = m := fun same => star same.symm
      simp [star, named, other]
    · simp [star, named, and_comm]

theorem has_subscribe_all (ns : List String) (sub : TypeSub) (n : String) :
    TypeSub.has (ns.foldl TypeSub.subscribe sub) n ↔ TypeSub.has sub n ∨ n ∈ ns := by
  induction ns generalizing sub with
  | nil => simp
  | cons m ns ih => rw [List.foldl_cons, ih, has_subscribe, List.mem_cons, or_assoc]

theorem has_unsubscribe_all (ns : List String) (sub : TypeSub) (n : String) :
    TypeSub.has (ns.foldl TypeSub.unsubscribe sub) n ↔ TypeSub.has sub n ∧ n ∉ ns := by
  induction ns generalizing sub with
  | nil => simp
  | cons m ns ih =>
    rw [List.foldl_cons, ih, has_unsubscribe, List.mem_cons, not_or, and_assoc]

theorem has_update_known (r : DeltaDiscoveryRequest) (sub : TypeSub) (n : String) :
    TypeSub.has (TypeSub.update r (some sub)) n ↔
      (TypeSub.has sub n ∨ n ∈ r.resourceNamesSubscribe) ∧ n ∉ r.resourceNamesUnsubscribe := by
  simp only [TypeSub.update, Option.isNone_some, Bool.false_eq_true, false_and, if_false,
    Option.getD_some, has_unsubscribe_all, has_subscribe_all]

/-- One request moves a known subscription exactly when it names something that
    was not there, or takes away something that was. -/
theorem update_keeps_iff (r : DeltaDiscoveryRequest) (sub : TypeSub) :
    SameSub sub (TypeSub.update r (some sub)) ↔
      (∀ n ∈ r.resourceNamesUnsubscribe, ¬ TypeSub.has sub n) ∧
      ∀ n ∈ r.resourceNamesSubscribe, n ∉ r.resourceNamesUnsubscribe → TypeSub.has sub n := by
  rw [same_sub_iff]
  simp only [has_update_known]
  constructor
  · intro same
    exact ⟨fun n gone held => ((same n).mp held).2 gone,
      fun n named kept => (same n).mpr ⟨Or.inr named, kept⟩⟩
  · rintro ⟨takes, names⟩ n
    constructor
    · intro held
      exact ⟨Or.inl held, fun gone => takes n gone held⟩
    · rintro ⟨held | named, kept⟩
      · exact held
      · exact names n named kept

def SameKnown : Option TypeSub → Option TypeSub → Prop
  | some a, some b => SameSub a b
  | none, none => True
  | _, _ => False

theorem same_update (r : DeltaDiscoveryRequest) {a b : Option TypeSub} (same : SameKnown a b) :
    SameSub (TypeSub.update r a) (TypeSub.update r b) := by
  match a, b, same with
  | none, none, _ => exact ⟨rfl, fun _ _ => Iff.rfl⟩
  | some a, some b, same =>
    have same : ∀ n, TypeSub.has a n ↔ TypeSub.has b n := same_sub_iff.mp same
    rw [same_sub_iff]
    intro n
    rw [has_update_known, has_update_known, same n]

theorem same_known_has {a b : Option TypeSub} (same : SameKnown a b) (n : String) :
    a.map (fun sub => TypeSub.has sub n) = b.map fun sub => TypeSub.has sub n := by
  match a, b, same with
  | none, none, _ => rfl
  | some a, some b, same => exact congrArg some (Bool.eq_iff_iff.mpr (same_sub_iff.mp same n))

/- The stream's subscriptions over a run -/

def Recorded (ss : Session) : Prop :=
  ∀ t, SameKnown (ss.stream.subs.lookup t) (subscribed ss.requests t)

/-- A request that reports an error comes for a known type, and changes nothing. -/
def NackChangesNothing (ss : Session) : Stimulus → Prop
  | .request r _ => r.IsNack → ∃ sub, ss.stream.subs.lookup r.typeUrl = some sub ∧
      (∀ n ∈ r.resourceNamesUnsubscribe, ¬ TypeSub.has sub n) ∧
      ∀ n ∈ r.resourceNamesSubscribe, n ∉ r.resourceNamesUnsubscribe → TypeSub.has sub n
  | .changed _ _ => True

theorem subscribed_append (requests : List DeltaDiscoveryRequest) (r : DeltaDiscoveryRequest)
    (t : String) : subscribed (requests ++ [r]) t =
      if t = r.typeUrl then some (TypeSub.update r (subscribed requests r.typeUrl))
      else subscribed requests t := by
  simp only [subscribed, List.foldl_append, List.foldl_cons, List.foldl_nil]

theorem send_subs (snap : Snapshot) (ss : Session) {typeUrl : String}
    (known : (ss.stream.subs.lookup typeUrl).isSome) (t : String) :
    (ss.send sel snap typeUrl).stream.subs.lookup t = ss.stream.subs.lookup t :=
  send_subs_known sel snap ss.stream known t

theorem sends_subs (snap : Snapshot) (order : List String) (ss : Session)
    (known : ∀ t ∈ order, (ss.stream.subs.lookup t).isSome) (t : String) :
    (order.foldl (Session.send sel snap) ss).stream.subs.lookup t = ss.stream.subs.lookup t := by
  induction order generalizing ss with
  | nil => rfl
  | cons typeUrl order ih =>
    have here : ∀ u, (ss.send sel snap typeUrl).stream.subs.lookup u = ss.stream.subs.lookup u :=
      send_subs snap ss (known typeUrl List.mem_cons_self)
    rw [List.foldl_cons, ih, here]
    intro t' later
    rw [here]
    exact known t' (List.mem_cons_of_mem _ later)

theorem sends_requests (snap : Snapshot) (order : List String) (ss : Session) :
    (order.foldl (Session.send sel snap) ss).requests = ss.requests := by
  induction order generalizing ss with
  | nil => rfl
  | cons typeUrl order ih => exact ih (ss.send sel snap typeUrl)

theorem request_subs {ss ss' : Session} {r : DeltaDiscoveryRequest} {snap : Snapshot}
    (h : ss.step sel (.request r snap) = some ss') (t : String) :
    ss'.stream.subs.lookup t =
      if t = r.typeUrl ∧ ¬ r.IsNack then some (TypeSub.update r (ss.stream.subs.lookup r.typeUrl))
      else ss.stream.subs.lookup t := by
  by_cases nack : r.IsNack
  · rw [step_nack ss nack] at h
    cases h
    rw [if_neg fun both => both.2 nack, Session.take, if_pos nack]
  · rw [step_clean ss nack] at h
    cases h
    have known : ((ss.take sel r).stream.subs.lookup r.typeUrl).isSome := by
      rw [take_stream ss nack, record_subs, if_pos rfl]
      rfl
    rw [send_subs snap _ known, take_stream ss nack, record_subs]
    simp only [nack, not_false_eq_true, and_true]

theorem request_requests {ss ss' : Session} {r : DeltaDiscoveryRequest} {snap : Snapshot}
    (h : ss.step sel (.request r snap) = some ss') : ss'.requests = ss.requests ++ [r] := by
  cases h
  split <;> rfl

theorem recorded_step {ss ss' : Session} {e : Stimulus} (before : Recorded ss)
    (h : ss.step sel e = some ss') : Recorded ss' ↔ NackChangesNothing ss e := by
  cases e with
  | changed snap order =>
    refine iff_of_true (fun t => ?_) trivial
    obtain ⟨visits, rfl⟩ := step_changed h
    rw [sends_subs snap order ss (fun t => (held_iff_visited visits t).mpr), sends_requests]
    exact before t
  | request r snap =>
    have subs := request_subs h
    have requests := request_requests h
    have others : ∀ t, t ≠ r.typeUrl →
        SameKnown (ss'.stream.subs.lookup t) (subscribed ss'.requests t) := by
      intro t other
      rw [subs, if_neg fun both => other both.1, requests, subscribed_append, if_neg other]
      exact before t
    have own : subscribed ss'.requests r.typeUrl =
        some (TypeSub.update r (subscribed ss.requests r.typeUrl)) := by
      rw [requests, subscribed_append, if_pos rfl]
    have reduce : Recorded ss' ↔
        SameKnown (ss'.stream.subs.lookup r.typeUrl) (subscribed ss'.requests r.typeUrl) := by
      constructor
      · intro all
        exact all r.typeUrl
      · intro here t
        by_cases same : t = r.typeUrl
        · rw [same]; exact here
        · exact others t same
    rw [reduce, subs, own]
    by_cases nack : r.IsNack
    · -- the loop is back in `select!` before the subscription is read
      rw [if_neg fun both => both.2 nack]
      have now := before r.typeUrl
      have condition : NackChangesNothing ss (.request r snap) ↔ _ := forall_prop_of_true nack
      rw [condition]
      cases known : ss.stream.subs.lookup r.typeUrl with
      | none => simp [SameKnown]
      | some sub =>
        rw [known] at now
        have both : SameSub (TypeSub.update r (some sub))
            (TypeSub.update r (subscribed ss.requests r.typeUrl)) := same_update r now
        simp only [Option.some.injEq, exists_eq_left']
        rw [← update_keeps_iff]
        change SameSub sub (TypeSub.update r (subscribed ss.requests r.typeUrl)) ↔ _
        rw [same_sub_iff, same_sub_iff]
        rw [same_sub_iff] at both
        exact forall_congr' fun n => by rw [both n]
    · rw [if_pos ⟨rfl, nack⟩]
      exact iff_of_true (same_update r (before r.typeUrl)) fun isNack => absurd isNack nack

/-- For either chapter and every run of one stream: its subscriptions are all its
    requests folded in order, at every point, if and only if each request with an
    error came for a known type and asked for no change. -/
theorem recorded_iff_nack_changes_nothing (sel : Selection) (cache : Cache) (es : List Stimulus) :
    Always (Session.step sel) Recorded (.opened cache) es ↔
      Along (Session.step sel) NackChangesNothing (.opened cache) es :=
  always_iff_along (I := fun _ => True) (fun _ _ _ _ _ => trivial)
    (fun _ _ _ _ before h => recorded_step before h) es trivial fun _ => trivial

theorem not_recorded {ss ss' : Session} {es : List Stimulus} {t n : String}
    (run : exec (Session.step sel) ss es = some ss')
    (differ : (ss'.stream.subs.lookup t).map (TypeSub.has · n) ≠
      (subscribed ss'.requests t).map (TypeSub.has · n)) :
    ¬ Always (Session.step sel) Recorded ss es :=
  fun all => differ (same_known_has (always_last all run t) n)

def rejectAndSubscribe : List Stimulus :=
  [.request ⟨tRoute, ["primary_route"], [], ∅, "", none⟩ (.build 1 "10.0.0.1"),
    .request ⟨tRoute, ["canary_route"], [], ∅, "rds-1", some "no such cluster"⟩
      (.build 1 "10.0.0.1")]

theorem subscription_lost_with_nack :
    ¬ Always (Session.step exactNames) Recorded (.opened fun _ _ => none) rejectAndSubscribe ∧
    ¬ Always (Session.step globNames) Recorded (.opened fun _ _ => none) rejectAndSubscribe :=
  ⟨not_recorded (t := tRoute) (n := "canary_route") rfl (by decide),
    not_recorded (t := tRoute) (n := "canary_route") rfl (by decide)⟩

end DeltaSubscriptions
