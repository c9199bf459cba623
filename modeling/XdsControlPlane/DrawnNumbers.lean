import XdsControlPlane.WatchReaders

/-!
Versions drawn from a counter. A task draws a number, holds its name for as long as
it likes, and may publish one value under it or drop it. Whatever the interleaving,
and in whatever order the values are published, no two of them have one version.
-/
namespace DrawnNumbers
open ExecutableRuns SharedCells WatchReaders

section Drawing
variable {G T A E V N : Type}

/-- What one step does to the counter, the channel and the name its task holds, and
    whether it draws a number. -/
inductive Draws (name : UInt64 → N) (version : V → N) (n : UInt64) (w : Watch V)
    (held : Option N) : Bool → UInt64 → Watch V → Option N → Prop where
  | keep (held' : Option N) (less : ∀ x, held' = some x → held = some x) :
      Draws name version n w held false n w held'
  | draw : Draws name version n w held true (fetchAddOne n) w (some (name (fetchAddOne n)))
  | publish (v : V) (own : held = some (version v)) :
      Draws name version n w held false n (w.send v) none

structure Drawing (p : Program G T A E) (name : UInt64 → N) (version : V → N) where
  counter : G → UInt64
  watch : G → Watch V
  held : T → Option N
  draws : Event A E → Bool
  spawned : ∀ g a, Draws name version (counter g) (watch g) none (draws (.spawn a))
    (counter (p.spawn g a).1) (watch (p.spawn g a).1) (held (p.spawn g a).2)
  stepped : ∀ i g t x g' t', p.step g t x = some (g', t') →
    Draws name version (counter g) (watch g) (held t) (draws (.step i x)) (counter g')
      (watch g') (held t')

variable {p : Program G T A E} {name : UInt64 → N} {version : V → N}
  (D : Drawing p name version)

def Drawing.Issued (ts : List T) (published : List V) (x : N) : Prop :=
  x ∈ published.map version ∨ ∃ (i : Nat) (t : T), ts[i]? = some t ∧ D.held t = some x

/-- No name is published twice, held by two tasks, or held once published. -/
structure Drawing.Apart (ts : List T) (published : List V) : Prop where
  distinct : (published.map version).Nodup
  held : ∀ (i j : Nat) t u x, ts[i]? = some t → ts[j]? = some u → D.held t = some x →
    D.held u = some x → i = j
  unpublished : ∀ (i : Nat) t x, ts[i]? = some t → D.held t = some x → x ∉ published.map version

/-- After `k` draws the counter shows `k + 1`, and every name is that of a number
    from 1 to it. -/
structure Drawing.Drawn (k : Nat) (s : System G T) (published : List V) : Prop where
  counter : D.counter s.shared = UInt64.ofNat (k + 1)
  apart : D.Apart s.tasks published
  issued : ∀ x, D.Issued s.tasks published x → ∃ m, m ≤ k ∧ x = name (UInt64.ofNat (m + 1))

def Replaces (ts ts' : List T) (i : Nat) (t' : T) : Prop :=
  ∀ (j : Nat) u, ts'[j]? = some u → (j = i ∧ u = t') ∨ (j ≠ i ∧ ts[j]? = some u)

variable {D} {ts ts' : List T} {published : List V} {i : Nat} {t' : T} {k : Nat}

theorem replaces_set (ts : List T) (i : Nat) (t' : T) : Replaces ts (ts.set i t') i t' :=
  fun _ _ found => getElem?_set_cases found

theorem replaces_append (ts : List T) (t' : T) : Replaces ts (ts ++ [t']) ts.length t' := by
  intro j u found
  rcases getElem?_append_one found with old | ⟨rfl, rfl⟩
  · have inside := (List.getElem?_eq_some_iff.mp old).1
    exact Or.inr ⟨by omega, old⟩
  · exact Or.inl ⟨rfl, rfl⟩

theorem apart_replace (apart : D.Apart ts published) (replaces : Replaces ts ts' i t')
    (new : ∀ x, D.held t' = some x →
      (∃ t, ts[i]? = some t ∧ D.held t = some x) ∨ ¬ D.Issued ts published x) :
    D.Apart ts' published := by
  have alone : ∀ (j : Nat) u x, j ≠ i → ts[j]? = some u → D.held u = some x → D.held t' ≠ some x := by
    intro j u x other found holds same
    rcases new x same with ⟨t, foundT, held⟩ | fresh
    · exact other (apart.held j i u t x found foundT holds held)
    · exact fresh (Or.inr ⟨j, u, found, holds⟩)
  constructor
  case distinct => exact apart.distinct
  case held =>
    intro a b t u x atA atB holdsT holdsU
    rcases replaces a t atA with ⟨rfl, rfl⟩ | ⟨otherA, oldA⟩
    · rcases replaces b u atB with ⟨rfl, rfl⟩ | ⟨otherB, oldB⟩
      · rfl
      · exact absurd holdsT (alone b u x otherB oldB holdsU)
    · rcases replaces b u atB with ⟨rfl, rfl⟩ | ⟨otherB, oldB⟩
      · exact absurd holdsU (alone a t x otherA oldA holdsT)
      · exact apart.held a b t u x oldA oldB holdsT holdsU
  case unpublished =>
    intro a t x atA holds
    rcases replaces a t atA with ⟨rfl, rfl⟩ | ⟨_, old⟩
    · rcases new x holds with ⟨u, found, held⟩ | fresh
      · exact apart.unpublished a u x found held
      · exact fun member => fresh (Or.inl member)
    · exact apart.unpublished a t x old holds

theorem apart_publish (apart : D.Apart ts published) (replaces : Replaces ts ts' i t') {t : T}
    (found : ts[i]? = some t) {v : V} (own : D.held t = some (version v))
    (gone : D.held t' = none) : D.Apart ts' (published ++ [v]) := by
  have still := apart_replace apart replaces (by simp [gone])
  have new : version v ∉ published.map version := apart.unpublished i t (version v) found own
  constructor
  case distinct =>
    rw [List.map_append, List.map_cons, List.map_nil]
    exact List.nodup_append'.mpr ⟨apart.distinct, List.nodup_singleton _,
      List.disjoint_singleton.mpr new⟩
  case held => exact still.held
  case unpublished =>
    intro a u x atA holds
    rw [List.map_append, List.map_cons, List.map_nil, List.mem_append, List.mem_singleton]
    rintro (member | rfl)
    · exact still.unpublished a u x atA holds member
    · rcases replaces a u atA with ⟨rfl, rfl⟩ | ⟨other, old⟩
      · simp [gone] at holds
      · exact other (apart.held a i u t _ old found holds own)

theorem next_unissued (injective : Function.Injective name) {s : System G T}
    (drawn : D.Drawn k s published) (few : k + 1 < 2 ^ 64) :
    ¬ D.Issued s.tasks published (name (fetchAddOne (D.counter s.shared))) := by
  intro issued
  obtain ⟨m, below, same⟩ := drawn.issued _ issued
  rw [drawn.counter, fetch_add_one_of_count] at same
  have := number_injective (by omega) (by omega) (injective same)
  omega

theorem drawn_step (injective : Function.Injective name) {s : System G T} {g : G} {held : Option N}
    {draws : Bool} (drawn : D.Drawn k s published) (few : draws → k + 1 < 2 ^ 64)
    (replaces : Replaces s.tasks ts' i t')
    (own : ∀ x, held = some x → ∃ t, s.tasks[i]? = some t ∧ D.held t = some x)
    (step : Draws name version (D.counter s.shared) (D.watch s.shared) held draws (D.counter g)
      (D.watch g) (D.held t')) :
    (D.watch g = D.watch s.shared ∧ D.Drawn (k + if draws then 1 else 0) ⟨g, ts'⟩ published) ∨
    ∃ v, D.watch g = (D.watch s.shared).send v ∧ draws = false ∧
      D.Drawn k ⟨g, ts'⟩ (published ++ [v]) := by
  generalize counter' : D.counter g = n at step
  generalize watch' : D.watch g = w at step
  generalize held' : D.held t' = h at step
  have old : ∀ x (j : Nat) u, ts'[j]? = some u → D.held u = some x →
      D.held t' = some x ∨ D.Issued s.tasks published x := by
    intro x j u found holds
    rcases replaces j u found with ⟨_, rfl⟩ | ⟨_, before⟩
    · exact Or.inl holds
    · exact Or.inr (Or.inr ⟨j, u, before, holds⟩)
  cases step with
  | keep h less =>
    refine Or.inl ⟨rfl, counter'.trans drawn.counter, ?_, ?_⟩
    · exact apart_replace drawn.apart replaces fun x new => Or.inl (own x (less x (held' ▸ new)))
    · rintro x (member | ⟨j, u, found, holds⟩)
      · exact drawn.issued x (Or.inl member)
      · rcases old x j u found holds with new | issued
        · obtain ⟨t, foundT, heldT⟩ := own x (less x (held' ▸ new))
          exact drawn.issued x (Or.inr ⟨i, t, foundT, heldT⟩)
        · exact drawn.issued x issued
  | draw =>
    have fresh := next_unissued injective drawn (few rfl)
    refine Or.inl ⟨rfl, ?_, ?_, ?_⟩
    · rw [counter', drawn.counter, fetch_add_one_of_count]
      rfl
    · apply apart_replace drawn.apart replaces
      intro x new
      cases held'.symm.trans new
      exact Or.inr fresh
    · have later : ∀ x, D.Issued s.tasks published x →
          ∃ m, m ≤ k + 1 ∧ x = name (UInt64.ofNat (m + 1)) := by
        intro x issued
        obtain ⟨m, below, same⟩ := drawn.issued x issued
        exact ⟨m, Nat.le_succ_of_le below, same⟩
      rintro x (member | ⟨j, u, found, holds⟩)
      · exact later x (Or.inl member)
      · rcases old x j u found holds with new | issued
        · cases held'.symm.trans new
          refine ⟨k + 1, Nat.le_refl _, ?_⟩
          rw [drawn.counter, fetch_add_one_of_count]
        · exact later x issued
  | publish v owned =>
    obtain ⟨t, foundT, heldT⟩ := own _ owned
    refine Or.inr ⟨v, rfl, rfl, counter'.trans drawn.counter, ?_, ?_⟩
    · exact apart_publish drawn.apart replaces foundT heldT held'
    · rintro x (member | ⟨j, u, found, holds⟩)
      · rw [List.map_append, List.map_cons, List.map_nil, List.mem_append,
          List.mem_singleton] at member
        rcases member with before | rfl
        · exact drawn.issued x (Or.inl before)
        · exact drawn.issued _ (Or.inr ⟨i, t, foundT, heldT⟩)
      · rcases old x j u found holds with new | issued
        · simp [held'] at new
        · exact drawn.issued x issued

theorem drawn_next (injective : Function.Injective name) {s s' : System G T} {e : Event A E}
    (drawn : D.Drawn k s published) (few : D.draws e → k + 1 < 2 ^ 64) (h : p.next s e = some s') :
    (D.watch s'.shared = D.watch s.shared ∧
      D.Drawn (k + if D.draws e then 1 else 0) s' published) ∨
    ∃ v, D.watch s'.shared = (D.watch s.shared).send v ∧ D.draws e = false ∧
      D.Drawn k s' (published ++ [v]) := by
  rcases next_cases h with ⟨a, rfl, rfl⟩ | ⟨j, x, t, g, t', rfl, found, moved, rfl⟩
  · exact drawn_step injective drawn few (replaces_append s.tasks _) (by simp)
      (D.spawned s.shared a)
  · exact drawn_step injective drawn few (replaces_set s.tasks j t')
      (fun x held => ⟨t, found, held⟩) (D.stepped j s.shared t x g t' moved)

theorem drawn_run (injective : Function.Injective name) {s s' : System G T}
    {es : List (Event A E)} (drawn : D.Drawn k s published)
    (few : k + es.countP D.draws < 2 ^ 64) (run : exec p.next s es = some s') :
    D.Drawn (k + es.countP D.draws) s'
      (published ++ sends p.next (fun s => D.watch s.shared) s es) := by
  induction es generalizing s published k with
  | nil =>
    cases Option.some.inj run
    rwa [sends, List.append_nil]
  | cons e es ih =>
    obtain ⟨t, first, rest⟩ := exec_cons_some.mp run
    rw [List.countP_cons] at few ⊢
    rw [sends_cons first]
    have drawsFew : D.draws e → k + 1 < 2 ^ 64 := by
      intro draws
      rw [if_pos draws] at few
      omega
    rcases drawn_next injective drawn drawsFew first with ⟨same, next⟩ | ⟨v, sent, none_, next⟩
    · rw [if_pos (congrArg Watch.stamp same), List.nil_append]
      have later := ih next (by omega) rest
      rwa [Nat.add_assoc, Nat.add_comm _ (es.countP D.draws)] at later
    · have moved : ¬ (D.watch t.shared).stamp = (D.watch s.shared).stamp := by
        simp [sent, Watch.send]
      have value : (D.watch t.shared).value = v := by rw [sent]; rfl
      rw [if_neg moved, value, ← List.append_assoc]
      have later := ih next (by omega) rest
      simpa [none_] using later

/-- From a counter at 1, a first value of that number and no name held: while fewer than
    2^64 numbers are drawn, no two values that were ever on the channel have one version. -/
theorem versions_distinct (injective : Function.Injective name) {s s' : System G T}
    {es : List (Event A E)} (bare : ∀ t ∈ s.tasks, D.held t = none)
    (counter : D.counter s.shared = 1) (first : version (D.watch s.shared).value = name 1)
    (few : es.countP D.draws < 2 ^ 64) (run : exec p.next s es = some s') :
    ((publications p.next (fun s => D.watch s.shared) s es).map version).Nodup := by
  have holdsNone : ∀ (i : Nat) t x, s.tasks[i]? = some t → D.held t ≠ some x := by
    intro i t x found
    simp [bare t (List.mem_of_getElem? found)]
  have start : D.Drawn 0 s [(D.watch s.shared).value] := by
    refine ⟨counter, ⟨List.nodup_singleton _, ?_, ?_⟩, ?_⟩
    · exact fun i _ t _ x found _ held _ => absurd held (holdsNone i t x found)
    · exact fun i t x found held => absurd held (holdsNone i t x found)
    · rintro x (member | ⟨i, t, found, held⟩)
      · rw [List.map_cons, List.map_nil, List.mem_singleton] at member
        exact ⟨0, Nat.le_refl 0, member.trans first⟩
      · exact absurd held (holdsNone i t x found)
  exact (drawn_run injective start (by omega) run).apart.distinct

end Drawing

end DrawnNumbers
