import XdsControlPlane.WatchReaders
import XdsControlPlane.KeyedMaps

/-!
Pushing a value under its version. For each key the version sent last is kept, and
a value whose version that is is not sent again. As a channel of a watch reader the
outbox never sends a key twice from one value in a row; and where a version stands
for one value, a reader that rests with the latest value seen has sent it last for
every key it was asked for.
-/
namespace VersionedPushes
open ExecutableRuns SharedCells KeyedMaps WatchReaders

section Outboxes
variable {K V N R : Type}

structure Rendering (K V N R : Type) where
  version : V → N
  respond : K → V → Option R
  key : R → K
  label : R → N
  respond_key : ∀ k v q, respond k v = some q → key q = k
  respond_label : ∀ k v q, respond k v = some q → label q = version v

/-- The versions sent last, and the responses sent, latest first. -/
structure Outbox (K N R : Type) where
  sentVersion : HashMap K N
  responses : List R

variable (ρ : Rendering K V N R)

def Rendering.Distinct (published : List V) : Prop :=
  ∀ u ∈ published, ∀ v ∈ published, ρ.version u = ρ.version v → u = v

theorem distinct_before {published : List V} {v : V} (distinct : ρ.Distinct (published ++ [v])) :
    ρ.Distinct published := fun _ first _ second same =>
  distinct _ (List.mem_append_left _ first) _ (List.mem_append_left _ second) same

theorem distinct_of_nodup {published : List V} (nodup : (published.map ρ.version).Nodup) :
    ρ.Distinct published := fun _ first _ second same =>
  List.inj_on_of_nodup_map nodup first second same

variable [DecidableEq K]

def Rendering.last (o : Outbox K N R) (k : K) : Option R :=
  o.responses.find? fun q => ρ.key q = k

/-- The versions kept are those of the responses sent last. -/
def Rendering.Tracked (o : Outbox K N R) : Prop :=
  ∀ k, o.sentVersion.lookup k = (ρ.last o k).map ρ.label

def Rendering.Renders (v : V) (q : R) : Prop := ∃ k, ρ.respond k v = some q

/-- For key `k` the reader has sent `v`, or still owes it with nothing but `v` in hand. -/
structure Rendering.Current (r : Reader K V (Outbox K N R)) (k : K) (v : V) : Prop where
  inHand : ∀ u, r.stage.inHand = some u → u = v
  sent : ∀ q, k ∉ r.stage.owed → ρ.respond k v = some q → ρ.last r.out k = some q

/-- The reader keeps key `k` current with the channel until it closes. -/
structure Rendering.Serves (w : Watch V) (k : K) (r : Reader K V (Outbox K N R)) : Prop where
  subscribed : r.stage ≠ .closed → k ∈ r.keys
  current : r.stage ≠ .closed → Settled w r.receiver (ρ.Current r k)

variable {ρ} {k : K} {o : Outbox K N R} {w : Watch V} {r r' : Reader K V (Outbox K N R)}

theorem last_cons (ρ : Rendering K V N R) (m : HashMap K N) (q : R) (qs : List R) (k : K) :
    ρ.last ⟨m, q :: qs⟩ k = if ρ.key q = k then some q else ρ.last ⟨m, qs⟩ k := by
  simp only [Rendering.last, List.find?_cons]
  split <;> simp_all

theorem last_mem {q : R} (h : ρ.last o k = some q) : q ∈ o.responses ∧ ρ.key q = k :=
  ⟨List.mem_of_find?_eq_some h, by simpa using List.find?_some h⟩

theorem last_split {newer older : List R} {q : R} (split : o.responses = newer ++ q :: older)
    (others : ∀ r ∈ newer, ρ.key r ≠ k) (named : ρ.key q = k) : ρ.last o k = some q := by
  have passed : newer.find? (fun r => decide (ρ.key r = k)) = none := by
    rw [List.find?_eq_none]
    intro r member
    simpa using others r member
  rw [Rendering.last, split, List.find?_append, passed, Option.none_or, List.find?_cons]
  simp [named]

theorem last_same {o o' : Outbox K N R} (same : o'.responses = o.responses) :
    ρ.last o' k = ρ.last o k := congrArg (List.find? fun q => decide (ρ.key q = k)) same

theorem serves_send (serves : ρ.Serves w k r) (v : V) : ρ.Serves (w.send v) k r :=
  ⟨serves.subscribed, fun isOpen => settled_send (serves.current isOpen) v⟩

theorem serves_rest (serves : ρ.Serves w k r) (idle : r.stage = .idle)
    (seen : r.receiver.UpToDate w) {q : R} (responds : ρ.respond k w.value = some q) :
    ρ.last r.out k = some q := by
  have current := (serves.current (by simp [idle])).settled seen
  exact current.sent q (by simp [idle, Stage.owed]) responds

theorem serves_quiet (serves : ρ.Serves w k r) (isOpen : r.stage ≠ .closed)
    (receiver : r'.receiver = r.receiver) (grows : r.keys ⊆ r'.keys)
    (quiet : r'.out.responses = r.out.responses)
    (inHand : ∀ u, r'.stage.inHand = some u → u = w.value)
    (owes : k ∈ r.stage.owed → k ∈ r'.stage.owed) : ρ.Serves w k r' := by
  refine ⟨fun _ => grows (serves.subscribed isOpen), fun _ => ?_⟩
  rw [receiver]
  apply settled_imp (serves.current isOpen)
  intro _ current
  refine ⟨inHand, ?_⟩
  intro q notOwed responds
  rw [last_same quiet]
  exact current.sent q (fun owed => notOwed (owes owed)) responds

variable [DecidableEq N]

def Rendering.pushIfNew (ρ : Rendering K V N R) (k : K) (v : V) (o : Outbox K N R) :
    Outbox K N R :=
  if o.sentVersion.lookup k = some (ρ.version v) then o
  else match ρ.respond k v with
    | none => o
    | some q => ⟨o.sentVersion.insert k (ρ.version v), q :: o.responses⟩

theorem push_cases (ρ : Rendering K V N R) (k : K) (v : V) (o : Outbox K N R) :
    (ρ.pushIfNew k v o = o ∧ (o.sentVersion.lookup k = some (ρ.version v) ∨ ρ.respond k v = none)) ∨
    ∃ q, ρ.respond k v = some q ∧ o.sentVersion.lookup k ≠ some (ρ.version v) ∧
      ρ.pushIfNew k v o = ⟨o.sentVersion.insert k (ρ.version v), q :: o.responses⟩ := by
  unfold Rendering.pushIfNew
  split
  · rename_i same
    exact Or.inl ⟨rfl, Or.inl same⟩
  · rename_i moved
    cases rendered : ρ.respond k v with
    | none => exact Or.inl ⟨rfl, Or.inr rfl⟩
    | some q => exact Or.inr ⟨q, rfl, moved, rfl⟩

theorem push_last_other {j : K} (different : j ≠ k) (v : V) (o : Outbox K N R) :
    ρ.last (ρ.pushIfNew k v o) j = ρ.last o j := by
  rcases push_cases ρ k v o with ⟨same, _⟩ | ⟨q, rendered, _, sent⟩
  · rw [same]
  · rw [sent, last_cons, ρ.respond_key k v q rendered, if_neg fun eq => different eq.symm]
    rfl

theorem push_tracked (tracked : ρ.Tracked o) (k : K) (v : V) : ρ.Tracked (ρ.pushIfNew k v o) := by
  rcases push_cases ρ k v o with ⟨same, _⟩ | ⟨q, rendered, _, sent⟩
  · rw [same]
    exact tracked
  · intro j
    rw [sent, lookup_insert, last_cons, ρ.respond_key k v q rendered]
    by_cases here : j = k
    · rw [if_pos here, if_pos here.symm, Option.map_some, ρ.respond_label k v q rendered]
    · rw [if_neg here, if_neg fun eq => here eq.symm]
      exact tracked j

theorem push_sent (tracked : ρ.Tracked o) (k : K) (v : V) :
    (ρ.pushIfNew k v o).responses = o.responses ∨
    ∃ q, ρ.Renders v q ∧ (ρ.pushIfNew k v o).responses = q :: o.responses ∧
      ∀ j newer last older, some (ρ.key q) = some j → o.responses = newer ++ last :: older →
        (∀ r ∈ newer, some (ρ.key r) ≠ some j) → some (ρ.key last) = some j →
        ¬ ρ.Renders v last := by
  rcases push_cases ρ k v o with ⟨same, _⟩ | ⟨q, rendered, moved, sent⟩
  · exact Or.inl (congrArg Outbox.responses same)
  · refine Or.inr ⟨q, ⟨k, rendered⟩, congrArg Outbox.responses sent, ?_⟩
    rintro j newer last older ⟨⟩ split others named ⟨i, renders⟩
    rw [ρ.respond_key k v q rendered] at others named
    have isLast : ρ.last o k = some last := by
      apply last_split split ?_ (Option.some.inj named)
      intro r member same
      exact others r member (congrArg some same)
    apply moved
    rw [tracked k, isLast, Option.map_some, ρ.respond_label i v last renders]

/-- The outbox as the channel of a watch reader. -/
def Rendering.channel (ρ : Rendering K V N R) : Channel K V (Outbox K N R) R where
  put := ρ.pushIfNew
  sent := Outbox.responses
  renders := ρ.Renders
  key q := some (ρ.key q)
  ok := ρ.Tracked
  put_ok k v _ tracked := push_tracked tracked k v
  put_sent k v _ tracked := push_sent tracked k v

/-- In an outbox that follows a history each response is the rendering of a value of it;
    the places never go back, and of one key each is later than the last. -/
theorem follows_rendered {published : List V} {responses : List R} {n : Nat}
    {places : List (R × Nat)} (follows : Follows ρ.channel published responses n places) :
    places.map Prod.fst = responses ∧
    (∀ x ∈ places, ∃ v, published[x.2]? = some v ∧ ρ.respond (ρ.key x.1) v = some x.1) ∧
    places.Pairwise fun later earlier => earlier.2 ≤ later.2 ∧
      (ρ.key later.1 = ρ.key earlier.1 → earlier.2 < later.2) := by
  refine ⟨follows.sent, ?_, ?_⟩
  · intro x member
    obtain ⟨v, atPlace, k, built⟩ := follows.renders x member
    refine ⟨v, atPlace, ?_⟩
    rwa [ρ.respond_key k v x.1 built]
  · refine (follows.descending.and follows.advances).imp ?_
    rintro later earlier ⟨back, advances⟩
    exact ⟨back, fun same => advances (ρ.key later.1) rfl (congrArg some same.symm)⟩

theorem responses_count {published : List V} {r : Reader K V (Outbox K N R)}
    (inOrder : InOrder ρ.channel published r) (k : K) :
    (r.out.responses.countP fun q => ρ.key q = k) ≤ published.length := by
  obtain ⟨n, places, follows, _⟩ := inOrder.sent
  simpa only [Rendering.channel, Option.some.injEq] using follows_count follows k

/- The latest value -/

/-- After the push the last response of the key is the value's, whether it was sent
    now or, under the same version, before. -/
theorem push_last {published : List V} (distinct : ρ.Distinct published) (tracked : ρ.Tracked o)
    (rendered : ∀ r ∈ o.responses, ∃ u ∈ published, ρ.Renders u r) (known : v ∈ published) {q : R}
    (responds : ρ.respond k v = some q) : ρ.last (ρ.pushIfNew k v o) k = some q := by
  rcases push_cases ρ k v o with ⟨same, skipped⟩ | ⟨q', rendered', _, sent⟩
  · have sameVersion : o.sentVersion.lookup k = some (ρ.version v) := by
      rcases skipped with sameVersion | nothing
      · exact sameVersion
      · simp [nothing] at responds
    rw [tracked k] at sameVersion
    obtain ⟨old, isLast, labelled⟩ := Option.map_eq_some_iff.mp sameVersion
    obtain ⟨member, named⟩ := last_mem isLast
    obtain ⟨u, knownU, j, respondsU⟩ := rendered old member
    have sameValue : u = v := by
      apply distinct u knownU v known
      rw [← ρ.respond_label j u old respondsU, labelled]
    have sameKey : j = k := (ρ.respond_key j u old respondsU).symm.trans named
    rw [same, isLast, ← respondsU, sameValue, sameKey, responds]
  · rw [sent, last_cons, ρ.respond_key k v q' rendered', if_pos rfl, ← rendered', responds]

variable {published : List V}

theorem serves_put (distinct : ρ.Distinct published) (inOrder : InOrder ρ.channel published r)
    (serves : ρ.Serves w k r) {j : K} {v : V} (held : r.stage.inHand = some v)
    {stage : Stage K V} (keeps : ∀ u, stage.inHand = some u → u = v)
    (pays : ∀ i ∈ r.stage.owed, i = j ∨ i ∈ stage.owed) :
    ρ.Serves w k { r with stage := stage, out := ρ.pushIfNew j v r.out } := by
  have isOpen : r.stage ≠ .closed := by
    intro closed
    simp [closed, Stage.inHand] at held
  refine ⟨fun _ => serves.subscribed isOpen, fun _ => ?_⟩
  apply settled_imp (serves.current isOpen)
  intro _ current
  have latest : v = w.value := current.inHand v held
  refine ⟨fun u inHand => (keeps u inHand).trans latest, ?_⟩
  intro q notOwed responds
  obtain ⟨n, places, follows, place⟩ := inOrder.sent
  by_cases same : k = j
  · subst same
    apply push_last distinct inOrder.ok ?_ (List.mem_of_getElem? (place v held)) (latest ▸ responds)
    intro answer member
    rw [show r.out.responses = places.map Prod.fst from follows.sent.symm] at member
    obtain ⟨x, inPlaces, rfl⟩ := List.mem_map.mp member
    obtain ⟨u, atPlace, renders⟩ := follows.renders x inPlaces
    exact ⟨u, List.mem_of_getElem? atPlace, renders⟩
  · rw [push_last_other same]
    apply current.sent q ?_ responds
    intro owed
    rcases pays k owed with here | later
    · exact same here
    · exact notOwed later

theorem serves_step {own : Bool} (distinct : ρ.Distinct published)
    (inOrder : InOrder ρ.channel published r) (serves : ρ.Serves w k r)
    (step : ReaderStep ρ.channel w r own r') : ρ.Serves w k r' := by
  cases step with
  | note keys out stage idle rests grows quiet ok =>
    refine serves_quiet serves (by simp [idle]) rfl ?_ ?_ ?_ ?_
    · exact grows
    · exact quiet
    · rcases rests with rfl | rfl <;> simp [Stage.inHand]
    · simp [idle, Stage.owed]
  | ask j keys out idle asked grows quiet ok =>
    refine serves_quiet serves (by simp [idle]) rfl ?_ ?_ ?_ ?_
    · exact grows
    · exact quiet
    · simp [Stage.inHand, eq_comm]
    · simp [idle, Stage.owed]
  | answer j v answering =>
    apply serves_put distinct inOrder serves (by rw [answering]; rfl)
    · simp [Stage.inHand]
    · simp [answering, Stage.owed]
  | wake order idle behind visits =>
    have subscribed := serves.subscribed (by simp [idle])
    refine ⟨fun _ => subscribed, fun _ => settled_now rfl ⟨?_, ?_⟩⟩
    · simp [Stage.inHand, eq_comm]
    · intro q notOwed
      exact absurd (visits.mem_iff.mpr subscribed) notOwed
  | visit j v todo visiting =>
    apply serves_put distinct inOrder serves (by rw [visiting]; rfl)
    · simp [Stage.inHand, eq_comm]
    · simp [visiting, Stage.owed]
  | finish v visiting =>
    refine serves_quiet serves (by simp [visiting]) rfl (List.Subset.refl r.keys) rfl ?_ ?_
    · simp [Stage.inHand]
    · simp [visiting, Stage.owed]
  | close keys => exact ⟨fun isOpen => absurd rfl isOpen, fun isOpen => absurd rfl isOpen⟩

end Outboxes

/- Whole runs -/

section Programs
variable {G T A E K V N R : Type} [DecidableEq K] [DecidableEq N] {p : Program G T A E}
  {ρ : Rendering K V N R}

/-- A step that asks a reader for a key: the reader answers from the value of the moment. -/
def Asks (P : Readers p ρ.channel) (x : E) (k : K) : Prop :=
  ∀ g t g' t', p.step g t x = some (g', t') → ∃ r, P.reader t' = some r ∧ k ∈ r.keys ∧
    r.stage = .answering k (P.watch g').value

def Serving (P : Readers p ρ.channel) (i : Nat) (k : K) (s : System G T) : Prop :=
  ∃ t r, s.tasks[i]? = some t ∧ P.reader t = some r ∧ ρ.Serves (P.channel s) k r

variable {P : Readers p ρ.channel} {s s' : System G T} {es : List (Event A E)}
  {published : List V} {i : Nat} {k : K}

theorem serving_next {e : Event A E} (following : P.Following s published)
    (distinct : ρ.Distinct published) (serving : Serving P i k s) (h : p.next s e = some s') :
    Serving P i k s' := by
  obtain ⟨t, r, found, isReader, serves⟩ := serving
  have others : ∀ w, Changes (P.channel s) w → ρ.Serves w k r := by
    intro w changes
    rcases changes with rfl | ⟨v, rfl⟩
    · exact serves
    · exact serves_send serves v
  have moves := next_changes (P := P) h
  rcases next_cases h with ⟨a, rfl, rfl⟩ | ⟨j, x, u, g, u', rfl, found', moved, rfl⟩
  · refine ⟨t, r, ?_, isReader, others _ moves⟩
    rwa [List.getElem?_append_left (List.getElem?_eq_some_iff.mp found).1]
  · by_cases same : j = i
    · subst same
      cases found.symm.trans found'
      have inOrder := following.inOrder t (List.mem_of_getElem? found) r isReader
      have effect := P.stepped s.shared t x g u' moved
      have here : (s.tasks.set j u')[j]? = some u' :=
        List.getElem?_set_self (List.getElem?_eq_some_iff.mp found).1
      rw [isReader] at effect
      generalize P.own x = own at effect
      generalize watch' : P.watch g = w' at effect
      generalize reader' : P.reader u' = r? at effect
      cases effect with
      | read r r' own step =>
        have channel : P.channel ⟨g, s.tasks.set j u'⟩ = P.channel s := watch'
        exact ⟨u', r', here, reader', channel ▸ serves_step distinct inOrder serves step⟩
      | publish r v away =>
        have channel : P.channel ⟨g, s.tasks.set j u'⟩ = (P.channel s).send v := watch'
        refine ⟨u', { r with stage := .idle }, here, reader', channel ▸ ?_⟩
        apply serves_send
        refine serves_quiet serves (by simp [away]) rfl (List.Subset.refl r.keys) rfl ?_ ?_
        · simp [Stage.inHand]
        · simp [away, Stage.owed]
    · refine ⟨t, r, ?_, isReader, others _ moves⟩
      rwa [List.getElem?_set_ne same]

/-- Once a reader is asked for a key it serves it, through any interleaving, while a
    version stands for one value. -/
theorem asked_is_served {x : E} (bare : ∀ t ∈ s.tasks, P.reader t = none) (asks : Asks P x k)
    (asked : .step i x ∈ es) (run : exec p.next s es = some s')
    (distinct : ρ.Distinct (P.history s es)) : Serving P i k s' := by
  obtain ⟨pre, post, rfl⟩ := List.append_of_mem asked
  rw [List.append_cons] at run distinct
  obtain ⟨t, before, after⟩ := exec_append_some.mp run
  have following := readers_follow (P := P) bare before
  have serving : Serving P i k t := by
    obtain ⟨m, _, last⟩ := exec_append_some.mp before
    obtain ⟨t', now, rest⟩ := exec_cons_some.mp last
    cases Option.some.inj rest
    rcases next_cases now with ⟨a, eq, _⟩ | ⟨j, y, u, g, u', eq, found, moved, rfl⟩
    · cases eq
    · cases eq
      obtain ⟨r, isReader, subscribed, answering⟩ := asks m.shared u g u' moved
      have here : (m.tasks.set i u')[i]? = some u' :=
        List.getElem?_set_self (List.getElem?_eq_some_iff.mp found).1
      have notAhead := following.notAhead u' (List.mem_of_getElem? here) r isReader
      refine ⟨u', r, here, isReader, fun _ => subscribed, fun _ => ⟨notAhead, fun _ => ⟨?_, ?_⟩⟩⟩
      · rw [answering]
        rintro v ⟨⟩
        rfl
      · simp [answering, Stage.owed]
  rw [Readers.history, publications_append before] at distinct
  have changes : ∀ s e t, p.next s e = some t → Changes (P.channel s) (P.channel t) :=
    fun _ _ _ h => next_changes h
  have kept := exec_published
    (I := fun s published => P.Following s published ∧ (ρ.Distinct published → Serving P i k s))
    ?_ ?_ changes after ⟨following, fun _ => serving⟩
  · exact kept.2 distinct
  · rintro s published e u _ ⟨before, serves⟩ h same
    exact ⟨following_still before h same, fun distinct => serving_next before distinct (serves distinct) h⟩
  · rintro s published e u v _ ⟨before, serves⟩ h sent
    refine ⟨following_sent before h sent, fun distinct => ?_⟩
    have distinct' := distinct_before ρ distinct
    exact serving_next before distinct' (serves distinct') h

/-- A stream has caught up when it waits with the latest value seen; and then it has sent
    that last for every key that it was asked for in the run. -/
theorem caught_up_served {S : Type} (F : Streams P S) (bare : ∀ t ∈ s.tasks, P.reader t = none)
    (run : exec p.next s es = some s') (distinct : ρ.Distinct (P.history s es)) {asked : K → Prop}
    (asks : ∀ k, asked k → ∃ x, .step i x ∈ es ∧ Asks P x k) :
    P.CaughtUp i s' ↔ ∃ σ, s'.tasks[i]? = some (F.task σ) ∧ (F.read σ).stage = .idle ∧
      (F.read σ).receiver.UpToDate (P.channel s') ∧
      ∀ k q, asked k → ρ.respond k (P.channel s').value = some q →
        ρ.last (F.read σ).out k = some q := by
  rw [caught_up_at F]
  constructor
  · rintro ⟨σ, found, idle, seen⟩
    refine ⟨σ, found, idle, seen, ?_⟩
    intro k q isAsked responds
    obtain ⟨x, inRun, asksFor⟩ := asks k isAsked
    obtain ⟨t, r, found', isReader, serves⟩ := asked_is_served bare asksFor inRun run distinct
    cases found.symm.trans found'
    cases (reads_task F σ).symm.trans isReader
    exact serves_rest serves idle seen responds
  · rintro ⟨σ, found, idle, seen, _⟩
    exact ⟨σ, found, idle, seen⟩

end Programs

end VersionedPushes
