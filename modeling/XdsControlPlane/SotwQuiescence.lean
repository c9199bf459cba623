import XdsControlPlane.RunPotentials
import XdsControlPlane.SotwTraffic

/-!
Chapter 2 with its clients in the loop. A NACK makes the control plane publish, a
publication wakes every stream, what is sent is answered, and an answer may be a NACK.
Once the admin calls are done this comes to an end: only a faulty snapshot that is in
hand or advertised can cause a rejection, and a rollback advertises none.
-/
namespace SotwQuiescence
open ExecutableRuns SharedCells KeyedMaps EnvoyMessages RunPotentials SotwSnapshots SotwServer
  SotwConvergence SotwRollback SotwTraffic
open SotwStreams (streamOf stepsLeft)

instance (snap : Snapshot) : Decidable (Faulty snap) :=
  decidable_of_iff ((snap.buildResponse tListener).any fun r => !accepts r) <| by
    simp only [Faulty, Option.any_eq_true, Bool.not_eq_true']

/- Clients that only answer -/

def answers (s : AdsStream) : Nat := s.received.countP fun q => ¬ q.IsSubscribe

def nacks (s : AdsStream) : Nat := s.received.countP fun q => q.IsNack

def rejections (s : AdsStream) : Nat := s.outbox.responses.countP fun r => !accepts r

/-- No admin call and no new stream; a request answers one of the responses that were not
    answered yet, and a NACK one of those that the client rejects. -/
def OnlyAnswers (st : State) : Step → Prop
  | .spawn _ => False
  | .step j (.request q) => ∀ s ∈ st.tasks[j]?.bind streamOf, ¬ q.IsSubscribe ∧
    q.typeUrl ∈ s.subscribed ∧ answers s < s.outbox.responses.length ∧
    (q.IsNack → nacks s < rejections s)
  | _ => True

instance (st : State) : (e : Step) → Decidable (OnlyAnswers st e)
  | .spawn _ => inferInstanceAs (Decidable False)
  | .step j (.request q) => inferInstanceAs (Decidable (∀ s ∈ st.tasks[j]?.bind streamOf,
      ¬ q.IsSubscribe ∧ q.typeUrl ∈ s.subscribed ∧ answers s < s.outbox.responses.length ∧
        (q.IsNack → nacks s < rejections s)))
  | .step _ .proceed | .step _ .respond | .step _ .rollback | .step _ (.wake _)
  | .step _ .deliver | .step _ .close => inferInstanceAs (Decidable True)

/- What is left to do -/

def isClosed : Phase → Bool
  | .closed => true
  | _ => false

/-- The rejections that the stream's present sends may bring, or the rollback it is in. -/
def due : Phase → Nat
  | .subscribing typeUrl snap => if Faulty snap ∧ typeUrl = tListener then 1 else 0
  | .watching snap todo => if Faulty snap then todo.count tListener else 0
  | .nacking _ => 1
  | _ => 0

def pending (w : World) (s : AdsStream) : Nat :=
  if s.receiver.seen ≠ w.advertised.stamp ∧ Faulty w.advertised.value then 1 else 0

def rollbacksLeft (w : World) (s : AdsStream) : Nat :=
  if isClosed s.phase then 0 else (rejections s - nacks s) + due s.phase + pending w s

/-- The steps that may still come from it and its client, if there are `rollbacks` more. -/
def load (w : World) (rollbacks : Nat) (s : AdsStream) : Nat :=
  if isClosed s.phase then 0
  else 1 + (s.outbox.responses.length - answers s) +
    2 * (stepsLeft w s + rollbacks * (s.subscribed.elems.length + 2))

def ofStream (f : AdsStream → Nat) (t : ControlTask) : Nat := (streamOf t).elim 0 f

def budget (st : State) : Nat := (st.tasks.map (ofStream (rollbacksLeft st.shared))).sum

def bound (st : State) : Nat :=
  budget st + (st.tasks.map (ofStream (load st.shared (budget st)))).sum

section Steps
variable {w w' : World} {s s' : AdsStream} {a : Act} {st st' : State}

theorem push_rejections {v ip : String} {broken : Bool} (typeUrl : String) (o : Outbox) :
    (pushIfNew typeUrl (.build v ip broken) o).responses.countP (fun r => !accepts r) ≤
      o.responses.countP (fun r => !accepts r) +
        if Faulty (.build v ip broken) ∧ typeUrl = tListener then 1 else 0 := by
  rcases push_if_new_cases typeUrl (.build v ip broken) o with ⟨same, _⟩ | ⟨resp, built, _, sent⟩
  · rw [same]
    exact Nat.le_add_right _ _
  · rw [sent, List.countP_cons]
    apply Nat.add_le_add_left
    cases accepted : accepts resp with
    | true => simp
    | false =>
      obtain ⟨isListener, isBroken⟩ := (rejected_iff built).mp accepted
      have cause : Faulty (.build v ip broken) ∧ typeUrl = tListener :=
        ⟨faulty_iff.mpr isBroken, isListener⟩
      rw [if_pos cause]
      split <;> omega

theorem push_length (typeUrl : String) (snap : Snapshot) (o : Outbox) :
    (pushIfNew typeUrl snap o).responses.length ≤ o.responses.length + 1 := by
  rcases push_if_new_cases typeUrl snap o with ⟨same, _⟩ | ⟨resp, _, _, sent⟩
  · rw [same]
    exact Nat.le_succ _
  · rw [sent, List.length_cons]

theorem open_rollbacks (isOpen : isClosed s.phase = false) :
    rollbacksLeft w s = (rejections s - nacks s) + due s.phase + pending w s := by
  rw [rollbacksLeft, isOpen]
  rfl

theorem step_rollbacks (world : WorldOk w) (ok : StreamOk w s) (targets : TaskGood (.stream s))
    (isOpen : isClosed s.phase = false) (step : StreamStep w s a w' s')
    (asked : ∀ q, a = .request q → ¬ q.IsSubscribe ∧ (q.IsNack → nacks s < rejections s)) :
    rollbacksLeft w' s' + (if a = .rollback then 1 else 0) ≤ rollbacksLeft w s := by
  have sends : ∀ {typeUrl snap next}, Pays s.phase next typeUrl snap →
      (pushIfNew typeUrl snap s.outbox).responses.countP (fun r => !accepts r) ≤
        rejections s + if Faulty snap ∧ typeUrl = tListener then 1 else 0 := by
    intro typeUrl snap next pays
    obtain ⟨v, broken, rfl⟩ := world.built snap (ok.sending snap pays.sending)
    exact push_rejections typeUrl s.outbox
  rw [open_rollbacks isOpen]
  cases step with
  | nack q phase isNack =>
    have more := (asked q rfl).2 isNack
    have counted : nacks (s.taking q (.nacking w.lastGood)) = nacks s + 1 := by
      simp [nacks, AdsStream.taking, isNack]
    change (rejections s - nacks (s.taking q (.nacking w.lastGood))) + 1 + pending w s ≤ _
    omega
  | subscribe q phase isSubscribe => exact absurd isSubscribe (asked q rfl).1
  | ack q phase notNack answered =>
    have counted : nacks (s.taking q .select) = nacks s := by
      simp [nacks, AdsStream.taking, notNack]
    change (rejections s - nacks (s.taking q .select)) + 0 + pending w s ≤ _
    omega
  | respond typeUrl snap phase =>
    have more := sends (respond_pays phase)
    have paid : due s.phase = if Faulty snap ∧ typeUrl = tListener then 1 else 0 := by rw [phase]; rfl
    change ((pushIfNew typeUrl snap s.outbox).responses.countP (fun r => !accepts r) - nacks s) + 0 +
      pending w s ≤ _
    omega
  | rollback good phase =>
    have paid : due s.phase = 1 := by rw [phase]; rfl
    have none : pending { w with advertised := w.advertised.send good } { s with phase := .select } = 0 :=
      if_neg fun both => targets good phase both.2
    change (rejections s - nacks s) + 0 + pending { w with advertised := w.advertised.send good }
      { s with phase := .select } + 1 ≤ _
    omega
  | wake order phase behind visits =>
    have few : order.count tListener ≤ 1 := by
      rw [visits.count_eq]
      exact List.nodup_iff_count_le_one.mp s.subscribed.nodup tListener
    have now : pending w { s with
        receiver := ⟨w.advertised.stamp⟩, phase := .watching w.advertised.value order } = 0 :=
      if_neg fun both => both.1 rfl
    change (rejections s - nacks s) + (if Faulty w.advertised.value then order.count tListener else 0) +
      pending w { s with
        receiver := ⟨w.advertised.stamp⟩, phase := .watching w.advertised.value order } ≤ _
    rw [now, pending]
    by_cases faulty : Faulty w.advertised.value
    · rw [if_pos faulty, if_pos ⟨behind, faulty⟩]
      omega
    · rw [if_neg faulty]
      omega
  | deliver snap typeUrl todo phase =>
    have more := sends (deliver_pays phase)
    have paid : due s.phase = if Faulty snap then (typeUrl :: todo).count tListener else 0 := by
      rw [phase]; rfl
    change ((pushIfNew typeUrl snap s.outbox).responses.countP (fun r => !accepts r) - nacks s) +
      (if Faulty snap then todo.count tListener else 0) + pending w s ≤ _
    rw [paid, List.count_cons]
    by_cases faulty : Faulty snap
    · simp only [faulty, true_and, if_true, beq_iff_eq] at more ⊢
      omega
    · simp only [faulty, false_and, if_false] at more ⊢
      omega
  | finish snap phase =>
    change (rejections s - nacks s) + 0 + pending w s ≤ _
    omega
  | close notNacking => exact Nat.zero_le _

theorem open_load {n : Nat} (isOpen : isClosed s.phase = false) : load w n s =
    1 + (s.outbox.responses.length - answers s) +
      2 * (stepsLeft w s + n * (s.subscribed.elems.length + 2)) := by
  rw [load, isOpen]
  rfl

/-- A publication costs a stream no more than one rollback is reckoned at. -/
theorem load_others {n n' : Nat} (u : AdsStream)
    (paid : (w'.advertised = w.advertised ∧ n' ≤ n) ∨ n' + 1 ≤ n) : load w' n' u ≤ load w n u := by
  cases isOpen : isClosed u.phase with
  | true => simp [load, isOpen]
  | false =>
    rw [open_load isOpen, open_load isOpen]
    rcases paid with ⟨same, fewer⟩ | fewer
    · have still : stepsLeft w' u = stepsLeft w u := by rw [stepsLeft, stepsLeft, same]
      have less := Nat.mul_le_mul_right (u.subscribed.elems.length + 2) fewer
      omega
    · have wakes : stepsLeft w' u ≤ stepsLeft w u + (u.subscribed.elems.length + 2) := by
        unfold stepsLeft
        split_ifs <;> omega
      have less := Nat.mul_le_mul_right (u.subscribed.elems.length + 2) fewer
      rw [Nat.succ_mul] at less
      omega

theorem taking_load {n n' : Nat} (isOpen : isClosed s.phase = false) (phase : s.phase = .select)
    {q : DiscoveryRequest} {next : Phase} (rests : next = .select ∨ ∃ good, next = .nacking good)
    (same : w'.advertised = w.advertised) (answered : ¬ q.IsSubscribe) (known : q.typeUrl ∈ s.subscribed)
    (unanswered : answers s < s.outbox.responses.length) (fewer : n' ≤ n) :
    load w' n' (s.taking q next) + 1 ≤ load w n s := by
  have less := Nat.mul_le_mul_right (s.subscribed.elems.length + 2) fewer
  have counted : answers (s.taking q next) = answers s + 1 := by
    simp [answers, AdsStream.taking, answered]
  have subscribed : (s.taking q next).subscribed.elems = s.subscribed.elems :=
    List.insert_of_mem known
  have nextOpen : isClosed next = false := by
    rcases rests with rfl | ⟨good, rfl⟩ <;> rfl
  have still : stepsLeft w' (s.taking q next) = stepsLeft w s := by
    unfold stepsLeft
    rw [subscribed, same, phase]
    rcases rests with rfl | ⟨good, rfl⟩ <;> rfl
  rw [open_load isOpen, open_load nextOpen, still, counted, subscribed]
  change 1 + (s.outbox.responses.length - (answers s + 1)) + _ + 1 ≤ _
  omega

/-- A step other than a rollback takes one off the load of its stream. -/
theorem step_load {n n' : Nat} (isOpen : isClosed s.phase = false) (step : StreamStep w s a w' s')
    (asked : ∀ q, a = .request q → ¬ q.IsSubscribe ∧ q.typeUrl ∈ s.subscribed ∧
      answers s < s.outbox.responses.length) (other : a ≠ .rollback) (fewer : n' ≤ n) :
    load w' n' s' + 1 ≤ load w n s := by
  have less := Nat.mul_le_mul_right (s.subscribed.elems.length + 2) fewer
  cases step with
  | nack q phase isNack =>
    obtain ⟨answered, known, unanswered⟩ := asked q rfl
    exact taking_load isOpen phase (Or.inr ⟨_, rfl⟩) rfl answered known unanswered fewer
  | subscribe q phase isSubscribe => exact absurd isSubscribe (asked q rfl).1
  | ack q phase notNack isAnswer =>
    obtain ⟨answered, known, unanswered⟩ := asked q rfl
    exact taking_load isOpen phase (Or.inl rfl) rfl answered known unanswered fewer
  | respond typeUrl snap phase =>
    have longer := push_length typeUrl snap s.outbox
    rw [open_load isOpen, open_load rfl]
    simp only [answers, stepsLeft, phase]
    omega
  | rollback good phase => exact absurd rfl other
  | wake order phase behind visits =>
    have visited : order.length = s.subscribed.elems.length := visits.length_eq
    rw [open_load isOpen, open_load rfl]
    simp only [answers, stepsLeft, phase, if_neg behind, visited, if_true]
    omega
  | deliver snap typeUrl todo phase =>
    have longer := push_length typeUrl snap s.outbox
    rw [open_load isOpen, open_load rfl]
    simp only [answers, stepsLeft, phase, List.length_cons]
    omega
  | finish snap phase =>
    rw [open_load isOpen, open_load rfl]
    simp only [answers, stepsLeft, phase, List.length_nil]
    omega
  | close notNacking =>
    rw [open_load isOpen]
    change 0 + 1 ≤ _
    omega

theorem rollback_load {n n' : Nat} (isOpen : isClosed s.phase = false)
    (step : StreamStep w s .rollback w' s') (fewer : n' + 1 ≤ n) : load w' n' s' ≤ load w n s := by
  have paid : load w' n' s' ≤ load w n s' := load_others s' (Or.inr fewer)
  have same : load w n s' = load w n s := by
    cases step with
    | rollback good phase =>
      rw [open_load isOpen, open_load rfl]
      simp only [answers, stepsLeft, phase]
  exact same ▸ paid

theorem closed_stuck (isClosed_ : isClosed s.phase = true) : stepTask w (.stream s) a = none := by
  obtain ⟨receiver, subscribed, outbox, phase, received⟩ := s
  cases phase with
  | closed => cases a <;> rfl
  | _ => contradiction

end Steps

/- Whole runs -/

section Loop
variable {st st' : State} {e : Step}

structure LoopOk (st : State) : Prop where
  server : ServerOk st
  targets : TargetsGood st
  pushes : ∀ t ∈ st.tasks, PushDone t

structure LoopStep (st st' : State) (j : Nat) (a : Act) (s s' : AdsStream) : Prop where
  found : st.tasks[j]? = some (.stream s)
  isOpen : isClosed s.phase = false
  step : StreamStep st.shared s a st'.shared s'
  tasks : st'.tasks = st.tasks.set j (.stream s')
  asked : ∀ q, a = .request q → ¬ q.IsSubscribe ∧ q.typeUrl ∈ s.subscribed ∧
    answers s < s.outbox.responses.length ∧ (q.IsNack → nacks s < rejections s)

theorem loop_step (pushes : ∀ t ∈ st.tasks, PushDone t) (only : OnlyAnswers st e)
    (h : server.next st e = some st') : ∃ j a s s', LoopStep st st' j a s s' := by
  rcases next_cases h with ⟨call, rfl, rfl⟩ | ⟨j, a, t, w, t', rfl, found, moved, rfl⟩
  · exact only.elim
  · have step : stepTask st.shared t a = some (w, t') := moved
    rcases task_step step with ⟨p, p', rfl, rfl, moves⟩ | ⟨s, s', rfl, rfl, moves⟩
    · cases push_done_iff.mp (pushes _ (List.mem_of_getElem? found))
      cases moves
    · refine ⟨j, a, s, s', found, ?_, moves, rfl, ?_⟩
      · by_contra closed
        rw [closed_stuck (by simpa using closed)] at step
        contradiction
      · rintro q rfl
        exact only s (by simp [found, streamOf])

theorem loop_ok_next (ok : LoopOk st) (only : OnlyAnswers st e) (h : server.next st e = some st') :
    LoopOk st' := by
  refine ⟨server_ok_next ok.server h, targets_good_next ok.targets h, ?_⟩
  obtain ⟨j, a, s, s', loop⟩ := loop_step ok.pushes only h
  intro t member
  rw [loop.tasks] at member
  rcases List.mem_or_eq_of_mem_set member with old | rfl
  · exact ok.pushes t old
  · rfl

/-- A stream publishes only what is not faulty. -/
theorem step_advertised {w w' : World} {s s' : AdsStream} {a : Act} (targets : TaskGood (.stream s))
    (step : StreamStep w s a w' s') : (w'.advertised = w.advertised ∧ a ≠ .rollback) ∨
      (¬ Faulty w'.advertised.value ∧ a = .rollback) := by
  cases step with
  | rollback good phase => exact Or.inr ⟨targets good phase, rfl⟩
  | _ => exact Or.inl ⟨rfl, nofun⟩

theorem budget_next (ok : LoopOk st) {j : Nat} {a : Act} {s s' : AdsStream}
    (loop : LoopStep st st' j a s s') : budget st' + (if a = .rollback then 1 else 0) ≤ budget st := by
  have targets := ok.targets.task j _ loop.found
  rw [budget, budget, loop.tasks]
  apply sum_set_le ?_ loop.found
  · exact step_rollbacks ok.server.shared (ok.server.task j _ loop.found) targets loop.isOpen
      loop.step fun q isRequest => ⟨(loop.asked q isRequest).1, (loop.asked q isRequest).2.2.2⟩
  · intro t _
    cases t with
    | push p => exact Nat.le_refl 0
    | stream u =>
      change rollbacksLeft st'.shared u ≤ rollbacksLeft st.shared u
      cases isOpen : isClosed u.phase with
      | true => simp [rollbacksLeft, isOpen]
      | false =>
        rw [open_rollbacks isOpen, open_rollbacks isOpen]
        apply Nat.add_le_add_left
        rcases step_advertised targets loop.step with ⟨same, _⟩ | ⟨faultless, _⟩
        · rw [pending, pending, same]
        · rw [pending, if_neg fun both => faultless both.2]
          exact Nat.zero_le _

theorem bound_next (ok : LoopOk st) (only : OnlyAnswers st e) (h : server.next st e = some st') :
    bound st' + 1 ≤ bound st := by
  obtain ⟨j, a, s, s', loop⟩ := loop_step ok.pushes only h
  have fewer := budget_next ok loop
  have others : ∀ t ∈ st.tasks, ((st'.shared.advertised = st.shared.advertised ∧
      budget st' ≤ budget st) ∨ budget st' + 1 ≤ budget st) →
      ofStream (load st'.shared (budget st')) t ≤ ofStream (load st.shared (budget st)) t := by
    intro t _ paid
    cases t with
    | push p => exact Nat.le_refl 0
    | stream u => exact load_others u paid
  rcases step_advertised (ok.targets.task j _ loop.found) loop.step with ⟨same, other⟩ | ⟨_, rfl⟩
  · rw [if_neg other] at fewer
    have own : ofStream (load st'.shared (budget st')) (.stream s') + 1 ≤
        ofStream (load st.shared (budget st)) (.stream s) :=
      step_load loop.isOpen loop.step (fun q isRequest => ⟨(loop.asked q isRequest).1,
        (loop.asked q isRequest).2.1, (loop.asked q isRequest).2.2.1⟩) other fewer
    have total := sum_set_le (fun t member => others t member (Or.inl ⟨same, fewer⟩)) loop.found own
    rw [bound, bound, loop.tasks]
    omega
  · rw [if_pos rfl] at fewer
    have own : ofStream (load st'.shared (budget st')) (.stream s') + 0 ≤
        ofStream (load st.shared (budget st)) (.stream s) :=
      rollback_load loop.isOpen loop.step fewer
    have total := sum_set_le (fun t member => others t member (Or.inr fewer)) loop.found own
    rw [bound, bound, loop.tasks]
    omega

/-- Once the admin calls are done, and with clients that answer each response once and
    reject only what they do not accept, the control plane and its clients come to rest:
    no run is longer than `bound`, which is known from the state. No NACK brings
    on another one for ever. -/
theorem closed_loop_rests {ip : String} {es fs : List Step}
    (run : exec server.next (start ip) es = some st) (pushes : ∀ t ∈ st.tasks, PushDone t)
    (only : Along server.next OnlyAnswers st fs) (more : exec server.next st fs = some st') :
    fs.length ≤ bound st := by
  have loop : LoopOk st := ⟨server_ok_exec run (start_ok ip), targets_good_run run, pushes⟩
  have spent : fs.length + bound st' ≤ bound st := run_length_le
    (fun _ _ _ ok allowed h => loop_ok_next ok allowed h)
    (fun _ _ _ ok allowed h => bound_next ok allowed h) more only loop
  omega

/-- After the smoke test's broken delivery: the rejection, the rollback and the delivery
    of v1's snapshot. -/
theorem smoke_loop_rests :
    ∃ st, exec server.next (start "10.0.0.1") (subscribeAll ++ brokenDelivered) = some st ∧
      (exec server.next st smokeRejection).isSome ∧ smokeRejection.length ≤ bound st := by
  obtain ⟨st, st', run, pushes, only, more⟩ :
      ∃ st st', exec server.next (start "10.0.0.1") (subscribeAll ++ brokenDelivered) = some st ∧
        (∀ t ∈ st.tasks, PushDone t) ∧ Along server.next OnlyAnswers st smokeRejection ∧
        exec server.next st smokeRejection = some st' :=
    ⟨_, _, rfl, by decide, by decide, rfl⟩
  exact ⟨st, run, more ▸ rfl, closed_loop_rests run pushes only more⟩

end Loop

end SotwQuiescence
