import XdsControlPlane.SotwConvergence

/-!
What a rollback publishes. A NACK handler reads `last_good` and sends it in two
steps, and `push_good` stores and sends in two, so a handler may send a snapshot
that is `last_good` no longer. With one admin client that is the only way in
which an older snapshot can stay advertised behind a newer good push.
-/
namespace SotwRollback
open ExecutableRuns SharedCells KeyedMaps EnvoyMessages SotwSnapshots SotwServer SotwConvergence

/- One admin client -/

def PushDone : ControlTask → Bool
  | .push .done => true
  | .push _ => false
  | .stream _ => true

/-- The task is not between two of its shared steps: no push and no NACK
    handler is in progress in it. -/
def Resting : ControlTask → Bool
  | .stream ⟨_, _, _, .nacking _, _⟩ => false
  | t => PushDone t

def Quiet (st : State) : Prop := ∀ t ∈ st.tasks, Resting t

/-- A push starts when every earlier one is done. -/
abbrev OneAdmin (st : State) (e : Step) : Prop := IsPush e → ∀ t ∈ st.tasks, PushDone t

abbrev NumberLeft (st : State) (e : Step) : Prop := IsPush e → fetchAddOne st.shared.version ≠ 0

def NotBehind (w : World) : Prop :=
  w.advertised.value = w.lastGood ∨
    ∃ m n, w.lastGood.version = versionLabel m ∧ m < n ∧
      w.advertised.value = Snapshot.broken (versionLabel n) w.upstreamIp

def Forward (st : State) : Prop := Quiet st → NotBehind st.shared

/-- A NACK handler that is the last operation in progress sends a snapshot that
    is still `last_good`. -/
def FreshWhenLast (st : State) (e : Step) : Prop :=
  ∀ (i : Nat) s good, e = .step i .rollback → st.tasks[i]? = some (.stream s) →
    s.phase = .nacking good → (∀ (j : Nat) t, j ≠ i → st.tasks[j]? = some t → Resting t) →
    good = st.shared.lastGood

/-- `last_good` carries a number that was handed out before every number below `n`. -/
def GoodBelow (w : World) (n : UInt64) : Prop :=
  ∃ m, w.lastGood = Snapshot.good (versionLabel m) w.upstreamIp ∧ m < n

def PushCurrent (w : World) : Push → Prop
  | .numbered kind snap =>
    snap = kind.snapshot (versionLabel w.version) w.upstreamIp ∧ GoodBelow w w.version
  | .stored snap => snap = w.lastGood
  | .done => True

structure AdminOk (st : State) : Prop where
  lastGood : ∃ m, st.shared.lastGood = Snapshot.good (versionLabel m) st.shared.upstreamIp ∧
    m ≤ st.shared.version
  single : ∀ (i j : Nat) p q, st.tasks[i]? = some (.push p) → st.tasks[j]? = some (.push q) →
    p ≠ .done → q ≠ .done → i = j
  push : ∀ (i : Nat) p, st.tasks[i]? = some (.push p) → PushCurrent st.shared p
  nacking : ∀ (i : Nat) s good, st.tasks[i]? = some (.stream s) → s.phase = .nacking good →
    ∃ v, good = Snapshot.good v st.shared.upstreamIp

theorem lt_fetch_add_one {m n : UInt64} (le : m ≤ n) (more : fetchAddOne n ≠ 0) :
    m < fetchAddOne n := by
  unfold fetchAddOne at *
  rw [UInt64.lt_iff_toNat_lt]
  rw [UInt64.le_iff_toNat_le] at le
  have bound := n.toNat_lt
  have sum : (n + 1).toNat = (n.toNat + 1) % 2 ^ 64 := UInt64.toNat_add n 1
  have nonzero : (n + 1).toNat ≠ 0 := fun zero => more (UInt64.toNat_inj.mp zero)
  omega

theorem push_done_iff {p : Push} : PushDone (.push p) ↔ p = .done := by
  cases p <;> simp [PushDone]

theorem resting_push_iff {p : Push} : Resting (.push p) ↔ p = .done := push_done_iff

theorem resting_stream_iff {s : AdsStream} :
    Resting (.stream s) ↔ ∀ good, s.phase ≠ .nacking good := by
  obtain ⟨receiver, subscribed, outbox, phase, received⟩ := s
  cases phase <;> simp [Resting, PushDone]

theorem stream_step_frame {w w' : World} {s s' : AdsStream} {a : Act}
    (h : StreamStep w s a w' s') :
    w'.lastGood = w.lastGood ∧ w'.version = w.version ∧ w'.upstreamIp = w.upstreamIp := by
  cases h <;> exact ⟨rfl, rfl, rfl⟩

theorem stream_step_nacking {w w' : World} {s s' : AdsStream} {a : Act}
    (h : StreamStep w s a w' s') {good : Snapshot} (nacking : s'.phase = .nacking good) :
    good = w.lastGood := by
  cases h <;> simp_all [AdsStream.taking]

theorem push_current_frame {w w' : World} (lastGood : w'.lastGood = w.lastGood)
    (version : w'.version = w.version) (ip : w'.upstreamIp = w.upstreamIp) {p : Push} :
    PushCurrent w p → PushCurrent w' p := by
  cases p <;> simp only [PushCurrent, GoodBelow, lastGood, version, ip] <;> exact id

theorem admin_ok_spawn {st : State} (ok : AdminOk st) (c : Call) (alone : OneAdmin st (.spawn c))
    (left : NumberLeft st (.spawn c)) :
    AdminOk ⟨(spawn st.shared c).1, st.tasks ++ [(spawn st.shared c).2]⟩ := by
  obtain ⟨m, isGood, bound⟩ := ok.lastGood
  cases c with
  | push kind =>
    have idle : ∀ (i : Nat) p, st.tasks[i]? = some (.push p) → p = .done := fun i p found =>
      push_done_iff.mp (alone rfl _ (List.mem_of_getElem? found))
    have below : m < fetchAddOne st.shared.version := lt_fetch_add_one bound (left rfl)
    constructor
    case lastGood => exact ⟨m, isGood, UInt64.le_of_lt below⟩
    case single =>
      intro i j p q atI atJ pBusy qBusy
      rcases getElem?_append_one atI with old | ⟨rfl, _⟩
      · exact absurd (idle i p old) pBusy
      · rcases getElem?_append_one atJ with old | ⟨rfl, _⟩
        · exact absurd (idle j q old) qBusy
        · rfl
    case push =>
      intro i p found
      rcases getElem?_append_one found with old | ⟨_, eq⟩
      · rw [idle i p old]; trivial
      · cases eq
        exact ⟨rfl, m, isGood, below⟩
    case nacking =>
      intro i s good found nacking
      exact ok.nacking i s good (getElem?_append_other found nofun) nacking
  | openStream =>
    have oldPush : ∀ (i : Nat) p, (st.tasks ++ [(spawn st.shared .openStream).2])[i]? =
        some (.push p) → st.tasks[i]? = some (.push p) := fun _ _ found => getElem?_append_other found nofun
    constructor
    case lastGood => exact ok.lastGood
    case single =>
      intro i j p q atI atJ
      exact ok.single i j p q (oldPush i p atI) (oldPush j q atJ)
    case push => exact fun i p found => ok.push i p (oldPush i p found)
    case nacking =>
      intro i s good found nacking
      rcases getElem?_append_one found with old | ⟨_, eq⟩
      · exact ok.nacking i s good old nacking
      · cases eq; cases nacking

theorem admin_ok_push {st : State} (ok : AdminOk st) {i : Nat} {p p' : Push} {w' : World}
    (found : st.tasks[i]? = some (.push p)) (step : PushStep st.shared p w' p') :
    AdminOk ⟨w', st.tasks.set i (.push p')⟩ := by
  have busy : p ≠ .done := by cases step <;> nofun
  have own := ok.push i p found
  -- every other push is done, so nothing else depends on what the step changes
  have others : ∀ (j : Nat) q, j ≠ i → st.tasks[j]? = some (.push q) → q = .done := fun j q other atJ =>
    Classical.byContradiction fun qBusy => other (ok.single j i q p atJ found qBusy busy)
  have world : (∃ m, w'.lastGood = Snapshot.good (versionLabel m) w'.upstreamIp ∧
      m ≤ w'.version) ∧ PushCurrent w' p' ∧ w'.upstreamIp = st.shared.upstreamIp := by
    cases step with
    | store snap =>
      exact ⟨⟨st.shared.version, own.1, UInt64.le_refl _⟩, rfl, rfl⟩
    | publishBroken snap => exact ⟨ok.lastGood, trivial, rfl⟩
    | publishGood snap => exact ⟨ok.lastGood, trivial, rfl⟩
  constructor
  case lastGood => exact world.1
  case single =>
    intro j k q r atJ atK qBusy rBusy
    rcases getElem?_set_cases atJ with ⟨rfl, _⟩ | ⟨other, old⟩
    · rcases getElem?_set_cases atK with ⟨rfl, _⟩ | ⟨other, old⟩
      · rfl
      · exact absurd (others k r other old) rBusy
    · exact absurd (others j q other old) qBusy
  case push =>
    intro j q atJ
    rcases getElem?_set_cases atJ with ⟨_, eq⟩ | ⟨other, old⟩
    · cases eq; exact world.2.1
    · rw [others j q other old]; trivial
  case nacking =>
    intro j s good atJ nacking
    rw [world.2.2]
    exact ok.nacking j s good (getElem?_set_other atJ nofun) nacking

theorem admin_ok_stream {st : State} (ok : AdminOk st) (i : Nat) {s s' : AdsStream} {a : Act}
    {w' : World} (step : StreamStep st.shared s a w' s') :
    AdminOk ⟨w', st.tasks.set i (.stream s')⟩ := by
  obtain ⟨sameGood, sameVersion, sameIp⟩ := stream_step_frame step
  have oldPush : ∀ (j : Nat) q, (st.tasks.set i (.stream s'))[j]? = some (.push q) →
      st.tasks[j]? = some (.push q) := fun _ _ found => getElem?_set_other found nofun
  constructor
  case lastGood =>
    simp only [sameGood, sameVersion, sameIp]
    exact ok.lastGood
  case single =>
    intro j k q r atJ atK
    exact ok.single j k q r (oldPush j q atJ) (oldPush k r atK)
  case push =>
    intro j q atJ
    exact push_current_frame sameGood sameVersion sameIp (ok.push j q (oldPush j q atJ))
  case nacking =>
    intro j t good atJ nacking
    simp only [sameIp]
    rcases getElem?_set_cases atJ with ⟨_, eq⟩ | ⟨_, old⟩
    · cases eq
      obtain ⟨m, isGood, _⟩ := ok.lastGood
      exact ⟨versionLabel m, (stream_step_nacking step nacking).trans isGood⟩
    · exact ok.nacking j t good old nacking

theorem admin_ok_next {st st' : State} {e : Step} (ok : AdminOk st)
    (allowed : OneAdmin st e ∧ NumberLeft st e) (h : server.next st e = some st') : AdminOk st' := by
  rcases next_cases h with ⟨c, rfl, rfl⟩ | ⟨i, a, t, w', t', rfl, found, moved, rfl⟩
  · exact admin_ok_spawn ok c allowed.1 allowed.2
  · rcases task_step moved with ⟨p, p', rfl, rfl, step⟩ | ⟨s, s', rfl, rfl, step⟩
    · exact admin_ok_push ok found step
    · exact admin_ok_stream ok i step

theorem start_admin_ok (ip : String) : AdminOk (start ip) :=
  ⟨⟨1, congrArg (Snapshot.good · ip) (by decide : "v1" = versionLabel 1), UInt64.le_refl _⟩,
    nofun, nofun, nofun⟩

/- What is left when nothing is in progress -/

theorem forward_spawn {st : State} (c : Call) (before : Forward st) :
    Forward ⟨(spawn st.shared c).1, st.tasks ++ [(spawn st.shared c).2]⟩ := by
  intro quiet
  cases c with
  | push kind =>
    exact absurd (quiet _ List.mem_concat_self) (by simp [spawn, nextVersion, Resting, PushDone])
  | openStream => exact before fun t old => quiet t (List.mem_append_left _ old)

theorem forward_push {st : State} (ok : AdminOk st) {i : Nat} {p p' : Push} {w' : World}
    (found : st.tasks[i]? = some (.push p)) (step : PushStep st.shared p w' p') :
    Forward ⟨w', st.tasks.set i (.push p')⟩ := by
  intro quiet
  have own := ok.push i p found
  cases step with
  | store snap =>
    have rest := set_all_own (R := fun t => Resting t) found quiet
    exact absurd (resting_push_iff.mp rest) nofun
  | publishBroken snap =>
    obtain ⟨isBroken, m, isGood, below⟩ := own
    exact Or.inr ⟨m, st.shared.version, by rw [isGood]; rfl, below, isBroken⟩
  | publishGood snap => exact Or.inl own

/-- Every stream step but a rollback leaves the two snapshots alone, and ends no
    operation that was in progress. -/
theorem forward_stream {st : State} {i : Nat} {s s' : AdsStream} {a : Act}
    {w' : World} (found : st.tasks[i]? = some (.stream s)) (step : StreamStep st.shared s a w' s')
    (notRollback : a ≠ .rollback) (before : Forward st) :
    Forward ⟨w', st.tasks.set i (.stream s')⟩ := by
  intro quiet
  have rest : Resting (.stream s) := by
    rw [resting_stream_iff]
    intro good nacking
    cases step <;> simp_all
  have quietBefore : Quiet st := by
    intro u member
    obtain ⟨j, old⟩ := List.mem_iff_getElem?.mp member
    by_cases same : j = i
    · subst same
      cases found.symm.trans old
      exact rest
    · exact set_all_others quiet j u same old
  have kept := before quietBefore
  cases step with
  | rollback good phase => exact absurd rfl notRollback
  | _ => exact kept

theorem forward_rollback {st : State} (ok : AdminOk st) {i : Nat} {s : AdsStream}
    (found : st.tasks[i]? = some (.stream s)) {good : Snapshot} (nacking : s.phase = .nacking good) :
    Forward ⟨{ st.shared with advertised := st.shared.advertised.send good },
        st.tasks.set i (.stream { s with phase := .select })⟩ ↔
      ((∀ (j : Nat) t, j ≠ i → st.tasks[j]? = some t → Resting t) →
        good = st.shared.lastGood) := by
  constructor
  · intro forward others
    rcases forward (set_all rfl others) with same | ⟨m, n, _, _, broken⟩
    · exact same
    · obtain ⟨v, isGood⟩ := ok.nacking i s good found nacking
      exact absurd (broken.symm.trans isGood) (broken_ne_good _ _ _ _)
  · intro fresh quiet
    exact Or.inl (fresh (set_all_others quiet))

theorem forward_next {st st' : State} {e : Step} (ok : AdminOk st) (before : Forward st)
    (h : server.next st e = some st') : Forward st' ↔ FreshWhenLast st e := by
  rcases next_cases h with ⟨c, rfl, rfl⟩ | ⟨i, a, t, w', t', rfl, found, moved, rfl⟩
  · exact iff_of_true (forward_spawn c before) nofun
  · rcases task_step moved with ⟨p, p', rfl, rfl, step⟩ | ⟨s, s', rfl, rfl, step⟩
    · refine iff_of_true (forward_push ok found step) fun j s good eq found' => ?_
      cases eq
      cases found.symm.trans found'
    · by_cases isRollback : a = .rollback
      · subst isRollback
        cases step with
        | rollback good phase =>
          rw [forward_rollback ok found phase]
          constructor
          · intro fresh j t good' eq found' nacking others
            cases eq
            cases found.symm.trans found'
            cases phase.symm.trans nacking
            exact fresh others
          · intro fresh others
            exact fresh i s good rfl found phase others
      · refine iff_of_true (forward_stream found step isRollback before) fun j s good eq => ?_
        cases eq
        exact absurd rfl isRollback

/-- With one admin client, in every run: whenever no push and no NACK handler is
    in progress, the advertised snapshot is `last_good` or a broken one with a
    higher number, if and only if each NACK handler that finishes last still had
    the current `last_good` in hand. -/
theorem forward_iff_last_rollback_fresh (ip : String) (es : List Step)
    (oneAdmin : Along server.next OneAdmin (start ip) es)
    (numbersLeft : Along server.next NumberLeft (start ip) es) :
    Always server.next Forward (start ip) es ↔ Along server.next FreshWhenLast (start ip) es :=
  always_iff_along_within (fun _ _ _ ok allowed h => admin_ok_next ok allowed h)
    (fun _ _ _ ok _ before h => forward_next ok before h) (along_and oneAdmin numbersLeft)
    (start_admin_ok ip) fun _ => Or.inl rfl

/-- A client rejects the broken v2; while its handler holds v1, v3 is pushed. -/
def staleRollback : List Step :=
  brokenPush ++ [.step 0 (.request ⟨tListener, "v1", "lds-v2", some "empty stat_prefix"⟩),
    .spawn (.push .good), .step 2 .proceed, .step 2 .proceed, .step 0 .rollback]

theorem last_rollback_fresh_checked :
    Always server.next Forward (start "10.0.0.1") staleRollback ↔
      Along server.next FreshWhenLast (start "10.0.0.1") staleRollback :=
  forward_iff_last_rollback_fresh "10.0.0.1" staleRollback (by decide) (by decide)

theorem stale_rollback_hides_good_push :
    Along server.next OneAdmin (start "10.0.0.1") staleRollback ∧
      ¬ Always server.next Forward (start "10.0.0.1") staleRollback := by
  refine ⟨by decide, fun all => ?_⟩
  obtain ⟨st, run, quiet, advertised, lastGood⟩ :
      ∃ st, exec server.next (start "10.0.0.1") staleRollback = some st ∧ Quiet st ∧
        st.shared.advertised.value = Snapshot.good "v1" "10.0.0.1" ∧
        st.shared.lastGood.version = "v3" := ⟨_, rfl, by unfold Quiet; decide, rfl, rfl⟩
  rcases always_last all run quiet with same | ⟨m, n, _, _, broken⟩
  · rw [← same, advertised] at lastGood
    exact absurd lastGood (by decide)
  · rw [advertised] at broken
    exact broken_ne_good _ _ _ _ broken.symm

/- The schedule -/

/-- No good push stores while a NACK handler is between its read and its send. -/
def StoresApart (st : State) (e : Step) : Prop :=
  ∀ (i : Nat) snap, e = .step i .proceed → st.tasks[i]? = some (.push (.numbered .good snap)) →
    ∀ (j : Nat) s good, st.tasks[j]? = some (.stream s) → s.phase ≠ .nacking good

def HandlersCurrent (st : State) : Prop :=
  ∀ (i : Nat) s good, st.tasks[i]? = some (.stream s) → s.phase = .nacking good →
    good = st.shared.lastGood

theorem handlers_current_next {st st' : State} {e : Step} (current : HandlersCurrent st)
    (apart : StoresApart st e) (h : server.next st e = some st') : HandlersCurrent st' := by
  rcases next_cases h with ⟨c, rfl, rfl⟩ | ⟨i, a, t, w', t', rfl, found, moved, rfl⟩
  · intro j s good atJ nacking
    cases c with
    | push kind => exact current j s good (getElem?_append_other atJ nofun) nacking
    | openStream =>
      rcases getElem?_append_one atJ with old | ⟨_, eq⟩
      · exact current j s good old nacking
      · cases eq; cases nacking
  · rcases task_step moved with ⟨p, p', rfl, rfl, step⟩ | ⟨s, s', rfl, rfl, step⟩
    · intro j s good atJ nacking
      have old : st.tasks[j]? = some (.stream s) := getElem?_set_other atJ nofun
      have act : a = .proceed := by
        have taken : stepTask st.shared (.push p) a = some (w', .push p') := moved
        cases a <;> simp [stepTask] at taken ⊢
      cases step with
      | store snap => exact absurd nacking (apart i snap (by rw [act]) found j s good old)
      | publishBroken snap => exact current j s good old nacking
      | publishGood snap => exact current j s good old nacking
    · intro j u good atJ nacking
      simp only [(stream_step_frame step).1]
      rcases getElem?_set_cases atJ with ⟨_, eq⟩ | ⟨_, old⟩
      · cases eq; exact stream_step_nacking step nacking
      · exact current j u good old nacking

/-- With one admin client: where no good push stores while a NACK handler is between its
    read and its send, the property holds in every state reached. -/
theorem forward_if_stores_apart (ip : String) (es : List Step)
    (oneAdmin : Along server.next OneAdmin (start ip) es)
    (numbersLeft : Along server.next NumberLeft (start ip) es)
    (apart : Along server.next StoresApart (start ip) es) :
    Always server.next Forward (start ip) es := by
  apply always_of_along (I := fun st => AdminOk st ∧ Forward st ∧ HandlersCurrent st)
    (fun st ok => ok.2.1) ?_ (along_and (along_and oneAdmin numbersLeft) apart)
  · exact ⟨start_admin_ok ip, fun _ => Or.inl rfl, nofun⟩
  · rintro st e st' ⟨ok, before, current⟩ ⟨allowed, apart⟩ h
    refine ⟨admin_ok_next ok allowed h, (forward_next ok before h).mpr ?_,
      handlers_current_next current apart h⟩
    exact fun i s good _ found nacking _ => current i s good found nacking

end SotwRollback
