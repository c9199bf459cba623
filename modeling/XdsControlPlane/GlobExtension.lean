import XdsControlPlane.ExecutableRuns
import XdsControlPlane.DeltaDifference

/-!
Chapter 5's stream loop beside Chapter 4's, on the same requests and snapshots.
Where no name ends in `*` the two selections pick alike, so the differences the
two loops send are the same sets; what each loop remembers then stays the same
map, though the entries may have been written in another order.
-/
namespace GlobExtension
open ExecutableRuns KeyedMaps EnvoyMessages DeltaSnapshots DeltaStream DeltaDifference

/- The loop -/

/-- What one arm of `select!` receives, with the snapshot it finds advertised and,
    in the watch arm, the order in which it walks the keys of `subs`. -/
inductive Arm where
  | request : DeltaDiscoveryRequest → Snapshot → Arm
  | changed : Snapshot → List String → Arm

def step (sel : Selection) (l : Loop) : Arm → Option Loop
  | .request r snap => some (l.put (handleRequest sel l.vars r snap))
  | .changed snap order =>
    if order.Perm l.vars.subs.keys then some (order.foldl (Loop.visit sel snap) l) else none

/- Plain subscriptions -/

/-- No name of the subscription stands for a collection. -/
def Plain (sub : TypeSub) : Prop := ∀ n ∈ sub.names, stripStar n = none

def AllPlain (s : StreamVars) : Prop := ∀ t sub, s.subs.lookup t = some sub → Plain sub

/-- Of the names a request subscribes to only `*` itself ends in `*`. -/
def PlainRequest (r : DeltaDiscoveryRequest) : Prop :=
  ∀ n ∈ r.resourceNamesSubscribe, endsWith n "*" → n = "*"

def Arm.Plain : Arm → Prop
  | .request r _ => PlainRequest r
  | .changed _ _ => True

theorem strip_star_none {n : String} (plain : ¬ endsWith n "*") : stripStar n = none := by
  unfold stripStar
  split
  · rename_i rest starred
    refine absurd ?_ plain
    have chars : n.toList = rest.reverse ++ ['*'] := by
      rw [← List.reverse_cons, ← starred, List.reverse_reverse]
    simp [endsWith, chars]
  · rfl

theorem plain_matches {sub : TypeSub} (plain : Plain sub) :
    exactNames.stillWanted sub = sub.matches := by
  funext n
  rw [Bool.eq_iff_iff]
  simp only [exactNames, TypeSub.matches, Bool.or_eq_true, decide_eq_true_iff, List.any_eq_true]
  apply or_congr_right
  constructor
  · intro named
    refine ⟨n, named, ?_⟩
    rw [plain n named]
    exact beq_self_eq_true n
  · rintro ⟨s, named, same⟩
    rw [plain s named] at same
    exact eq_of_beq same ▸ named

theorem plain_default : Plain default := by
  intro n named
  exact absurd named (not_mem_empty n)

theorem plain_subscribe {sub : TypeSub} {m : String} (plain : Plain sub)
    (allowed : endsWith m "*" → m = "*") : Plain (sub.subscribe m) := by
  unfold TypeSub.subscribe
  split
  · exact plain
  · rename_i named
    intro n member
    rcases mem_insert.mp member with rfl | old
    · exact strip_star_none fun starred => named (allowed starred)
    · exact plain n old

theorem plain_unsubscribe {sub : TypeSub} (plain : Plain sub) (m : String) :
    Plain (sub.unsubscribe m) := by
  unfold TypeSub.unsubscribe
  split
  · exact plain
  · intro n member
    exact plain n (mem_remove.mp member).2

theorem plain_subscribes {sub : TypeSub} {ns : List String} (plain : Plain sub)
    (allowed : ∀ n ∈ ns, endsWith n "*" → n = "*") : Plain (ns.foldl TypeSub.subscribe sub) := by
  induction ns generalizing sub with
  | nil => exact plain
  | cons n ns ih =>
    exact ih (plain_subscribe plain (allowed n List.mem_cons_self)) fun m later =>
      allowed m (List.mem_cons_of_mem n later)

theorem plain_unsubscribes {sub : TypeSub} (plain : Plain sub) (ns : List String) :
    Plain (ns.foldl TypeSub.unsubscribe sub) := by
  induction ns generalizing sub with
  | nil => exact plain
  | cons n ns ih => exact ih (plain_unsubscribe plain n)

theorem plain_update {r : DeltaDiscoveryRequest} {known : Option TypeSub}
    (plain : Plain (known.getD default)) (request : PlainRequest r) :
    Plain (TypeSub.update r known) := by
  have names := plain_unsubscribes (plain_subscribes plain request) r.resourceNamesUnsubscribe
  unfold TypeSub.update
  simp only
  split
  · exact names
  · exact names

theorem plain_sub {s : StreamVars} (plain : AllPlain s) (t : String) : Plain (s.sub t) := by
  unfold StreamVars.sub entryOr
  cases held : s.subs.lookup t with
  | none => exact plain_default
  | some sub => exact plain t sub held

theorem plain_record {s : StreamVars} {r : DeltaDiscoveryRequest} (plain : AllPlain s)
    (request : PlainRequest r) : AllPlain (s.record r) := by
  intro t sub held
  rw [record_subs] at held
  split at held
  · cases held
    exact plain_update (plain_sub plain r.typeUrl) request
  · exact plain t sub held

theorem plain_send {s : StreamVars} (plain : AllPlain s) (sel : Selection) (typeUrl : String)
    (snap : Snapshot) : AllPlain (sendDelta sel typeUrl snap s).1 := by
  intro t sub held
  rw [(send_delta_spec sel typeUrl snap s).subs] at held
  split at held
  · cases held
    exact plain_sub plain typeUrl
  · exact plain t sub held

/- The same state, the same responses -/

def SameMap (m m' : HashMap String String) : Prop := ∀ n, m.lookup n = m'.lookup n

/-- `sent` is compared as a map of maps: the two loops may enter names in it in
    different orders. -/
structure SameVars (a b : StreamVars) : Prop where
  subs : a.subs = b.subs
  sent : ∀ t, Option.Rel SameMap (a.sent.lookup t) (b.sent.lookup t)
  nonceCtr : a.nonceCtr = b.nonceCtr

/-- One response, up to the order of what it lists. -/
structure SameResponse (r r' : DeltaDiscoveryResponse) : Prop where
  typeUrl : r.typeUrl = r'.typeUrl
  systemVersionInfo : r.systemVersionInfo = r'.systemVersionInfo
  nonce : r.nonce = r'.nonce
  resources : r.resources.Perm r'.resources
  removedResources : r.removedResources.Perm r'.removedResources

structure SameLoop (l l' : Loop) : Prop where
  vars : SameVars l.vars l'.vars
  outbox : List.Forall₂ SameResponse l.outbox l'.outbox

section Send
variable {a b : StreamVars}

theorem same_ledger (same : SameVars a b) (t n : String) : a.ledger t n = b.ledger t n := by
  have sent := same.sent t
  rw [ledger_eq, ledger_eq]
  generalize a.sent.lookup t = left at sent ⊢
  generalize b.sent.lookup t = right at sent ⊢
  cases sent with
  | none => rfl
  | some maps => exact maps n

theorem same_sent {t : String} (knownLeft : (a.sent.lookup t).isSome)
    (knownRight : (b.sent.lookup t).isSome) (ledger : ∀ n, a.ledger t n = b.ledger t n) :
    Option.Rel SameMap (a.sent.lookup t) (b.sent.lookup t) := by
  obtain ⟨m, left⟩ := Option.isSome_iff_exists.mp knownLeft
  obtain ⟨m', right⟩ := Option.isSome_iff_exists.mp knownRight
  simp only [ledger_eq, left, right, Option.bind_some] at ledger
  rw [left, right]
  exact .some ledger

theorem same_record (same : SameVars a b) (r : DeltaDiscoveryRequest) :
    SameVars (a.record r) (b.record r) := by
  constructor
  case subs => simp only [StreamVars.record, same.subs]
  case sent =>
    intro t
    by_cases named : t = r.typeUrl
    · apply same_sent
      · simp [StreamVars.record, lookup_insert, named]
      · simp [StreamVars.record, lookup_insert, named]
      · intro n
        rw [record_ledger, record_ledger, same_ledger same]
    · simp only [StreamVars.record, lookup_insert, if_neg named]
      exact same.sent t
  case nonceCtr => exact same.nonceCtr

theorem subs_after_send (sel : Selection) (typeUrl : String) (snap : Snapshot) (s : StreamVars) :
    (sendDelta sel typeUrl snap s).1.subs = orDefault s.subs typeUrl default := by
  unfold sendDelta
  simp only
  split <;> rfl

variable {snap : Snapshot} {typeUrl : String} {picks : String → Bool}

theorem same_added (same : SameVars a b) (x : Resource) :
    Added picks typeUrl snap a x ↔ Added picks typeUrl snap b x := by
  unfold Added
  rw [same_ledger same]

theorem same_dropped (same : SameVars a b) (n : String) :
    Dropped picks typeUrl snap a n ↔ Dropped picks typeUrl snap b n := by
  unfold Dropped
  rw [same_ledger same]

theorem same_nothing (same : SameVars a b) :
    Nothing picks typeUrl snap a ↔ Nothing picks typeUrl snap b := by
  unfold Nothing
  simp only [same_added same, same_dropped same]

/-- Two exact differences of one comparison: they list the same and leave the same. -/
theorem same_difference {a' b' : StreamVars} {resp resp' : Option DeltaDiscoveryResponse}
    (same : SameVars a b) (left : ExactDifference picks typeUrl snap a a' resp)
    (right : ExactDifference picks typeUrl snap b b' resp') :
    a'.nonceCtr = b'.nonceCtr ∧ (∀ n, a'.ledger typeUrl n = b'.ledger typeUrl n) ∧
      Option.Rel SameResponse resp resp' := by
  have silent : resp = none ↔ resp' = none :=
    left.silent.trans ((same_nothing same).trans right.silent.symm)
  have counters : a'.nonceCtr = b'.nonceCtr := by
    have together : resp.isSome ↔ resp'.isSome := by
      rw [← Option.ne_none_iff_isSome, ← Option.ne_none_iff_isSome]
      exact not_congr silent
    rw [left.counted, right.counted, same.nonceCtr]
    simp only [together]
  refine ⟨counters, ?_, ?_⟩
  · intro n
    by_cases picked : picks n
    · rw [left.picked n picked, right.picked n picked]
    · rw [left.unpicked n picked, right.unpicked n picked, same_ledger same]
  · have resources : (resourcesOf resp).Perm (resourcesOf resp') := by
      apply (List.perm_ext_iff_of_nodup (.of_map _ left.addedOnce) (.of_map _ right.addedOnce)).mpr
      intro x
      exact (left.added x).trans ((same_added same x).trans (right.added x).symm)
    have removed : (removedOf resp).Perm (removedOf resp') := by
      apply (List.perm_ext_iff_of_nodup left.droppedOnce right.droppedOnce).mpr
      intro n
      exact (left.dropped n).trans ((same_dropped same n).trans (right.dropped n).symm)
    cases resp with
    | none =>
      rw [silent.mp rfl]
      exact .none
    | some r =>
      cases resp' with
      | none => exact absurd (silent.mpr rfl) (by simp)
      | some r' =>
        obtain ⟨typeL, systemL, nonceL⟩ := left.addressed r rfl
        obtain ⟨typeR, systemR, nonceR⟩ := right.addressed r' rfl
        exact .some
          { typeUrl := typeL.trans typeR.symm
            systemVersionInfo := systemL.trans systemR.symm
            nonce := by rw [nonceL, nonceR, counters]
            resources := resources
            removedResources := removed }

theorem same_send (same : SameVars a b) (plain : AllPlain a) (typeUrl : String) (snap : Snapshot) :
    SameVars (sendDelta exactNames typeUrl snap a).1 (sendDelta globNames typeUrl snap b).1 ∧
    Option.Rel SameResponse (sendDelta exactNames typeUrl snap a).2
      (sendDelta globNames typeUrl snap b).2 := by
  have sameSub : a.sub typeUrl = b.sub typeUrl := by rw [StreamVars.sub, same.subs, StreamVars.sub]
  have left := sends_exact_difference exactNames typeUrl snap a
  have right := sends_exact_difference globNames typeUrl snap b
  rw [plain_matches (plain_sub plain typeUrl), sameSub] at left
  obtain ⟨counters, ledgers, responses⟩ := same_difference same left right
  refine ⟨?_, responses⟩
  constructor
  case subs => rw [subs_after_send, subs_after_send, same.subs]
  case sent =>
    intro t
    by_cases named : t = typeUrl
    · subst named
      exact same_sent (sent_type_known exactNames t snap a) (sent_type_known globNames t snap b)
        ledgers
    · rw [left.otherTypes t named, right.otherTypes t named]
      exact same.sent t
  case nonceCtr => exact counters

end Send

/- The loops side by side -/

/-- The invariant of a run of both loops: they agree, and no stored name is a glob. -/
def InStep (l l' : Loop) : Prop := SameLoop l l' ∧ AllPlain l.vars

theorem put_in_step {l l' : Loop} {result result' : StreamVars × Option DeltaDiscoveryResponse}
    (before : List.Forall₂ SameResponse l.outbox l'.outbox) (vars : SameVars result.1 result'.1)
    (responses : Option.Rel SameResponse result.2 result'.2) (plain : AllPlain result.1) :
    InStep (l.put result) (l'.put result') := by
  refine ⟨⟨vars, ?_⟩, plain⟩
  obtain ⟨_, resp⟩ := result
  obtain ⟨_, resp'⟩ := result'
  cases responses with
  | none => exact before
  | some same => exact .cons same before

theorem visit_in_step {l l' : Loop} (both : InStep l l') (snap : Snapshot) (typeUrl : String) :
    InStep (l.visit exactNames snap typeUrl) (l'.visit globNames snap typeUrl) := by
  obtain ⟨same, plain⟩ := both
  obtain ⟨vars, responses⟩ := same_send same.vars plain typeUrl snap
  exact put_in_step same.outbox vars responses (plain_send plain exactNames typeUrl snap)

theorem visits_in_step {l l' : Loop} (both : InStep l l') (snap : Snapshot) (order : List String) :
    InStep (order.foldl (Loop.visit exactNames snap) l)
      (order.foldl (Loop.visit globNames snap) l') := by
  induction order generalizing l l' with
  | nil => exact both
  | cons typeUrl order ih => exact ih (visit_in_step both snap typeUrl)

theorem request_in_step {l l' : Loop} (both : InStep l l') {r : DeltaDiscoveryRequest}
    (request : PlainRequest r) (snap : Snapshot) :
    InStep (l.put (handleRequest exactNames l.vars r snap))
      (l'.put (handleRequest globNames l'.vars r snap)) := by
  obtain ⟨same, plain⟩ := both
  unfold handleRequest
  split
  · exact put_in_step same.outbox same.vars .none plain
  · have recorded := plain_record plain request
    obtain ⟨vars, responses⟩ := same_send (same_record same.vars r) recorded r.typeUrl snap
    exact put_in_step same.outbox vars responses (plain_send recorded exactNames r.typeUrl snap)

theorem step_in_step {l l' : Loop} {e : Arm} (both : InStep l l') (plain : e.Plain) :
    Option.Rel InStep (step exactNames l e) (step globNames l' e) := by
  cases e with
  | request r snap => exact .some (request_in_step both plain snap)
  | changed snap order =>
    simp only [step, both.1.vars.subs]
    split
    · exact .some (visits_in_step both snap order)
    · exact .none

theorem opened_in_step : InStep .opened .opened := by
  refine ⟨⟨⟨rfl, ?_, rfl⟩, .nil⟩, ?_⟩
  · intro t
    exact .none
  · intro t sub held
    simp [Loop.opened, StreamVars.opened] at held

/-- Chapter 5 extends Chapter 4: where no request subscribes to a glob, the two
    loops take the same runs, reach the same variables and have sent the same
    responses, for a run and so for every beginning of it. -/
theorem glob_loop_extends_exact (arms : List Arm) (plain : ∀ e ∈ arms, e.Plain) :
    Option.Rel SameLoop (exec (step exactNames) .opened arms)
      (exec (step globNames) .opened arms) := by
  have both := exec_related (fun _ _ _ => step_in_step) plain opened_in_step
  generalize exec (step exactNames) .opened arms = left at both
  generalize exec (step globNames) .opened arms = right at both
  cases both with
  | none => exact .none
  | some related => exact .some related.1

def mixedArms : List Arm :=
  [ .request ⟨tCluster, ["*", clusterName, "absent"], [],
      (∅ : HashMap String String).insert "absent" "v9", "", none⟩ (.build 1 "10.0.0.1"),
    .request ⟨tRoute, [routeName], [], ∅, "", none⟩ (.build 1 "10.0.0.1"),
    .changed (.build 2 "10.0.0.1") [tRoute, tCluster],
    .request ⟨tRoute, [], [], ∅, "rds-3", some "rejected"⟩ (.build 2 "10.0.0.1") ]

theorem glob_loop_extends_exact_mixed :
    (exec (step exactNames) .opened mixedArms).map (fun l => l.outbox.map fun r =>
        (r.nonce, r.resources.map (·.name), r.removedResources)) =
      some [("rds-3", [routeName], []), ("rds-2", [routeName], []),
        ("cds-1", [clusterName], ["absent"])] ∧
    Option.Rel SameLoop (exec (step exactNames) .opened mixedArms)
      (exec (step globNames) .opened mixedArms) := by
  constructor
  · decide
  · apply glob_loop_extends_exact
    simp [mixedArms, Arm.Plain, PlainRequest, endsWith]
    decide

end GlobExtension
