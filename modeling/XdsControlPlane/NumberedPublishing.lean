import XdsControlPlane.NumberedCalls

/-!
Programs whose tasks are numbered calls and readers of what the calls publish. A
`Publisher` says how a program is seen in this way. As long as calls publish in
the order of their numbers, what is current never goes back and no reader pushes
an older value after a newer one; out of order, the first publication that comes
late is older than what it replaces. In any order a publication has a new name.
-/
namespace NumberedPublishing
open ExecutableRuns SharedCells NumberedCalls

/- Programs of numbered calls -/

/-- What the calls share: the counter, what is published under which name, and
    how often something was. -/
structure Board (N : Type) where
  counter : UInt64
  current : N
  sends : Nat

/-- A reader takes what is current, and pushes only what it has taken last. The
    pair is what it holds and what it has pushed, latest first. -/
inductive Reads {N : Type} (current : N) : Option N × List N → Option N × List N → Prop where
  | take (held : Option N) (pushed : List N) : Reads current (held, pushed) (some current, pushed)
  | push (held held' : Option N) (pushed fresh : List N) (own : ∀ v ∈ fresh, held = some v)
      (next : held' = none ∨ held' = held) : Reads current (held, pushed) (held', fresh ++ pushed)

/-- One step of a task: a call publishes under its name, or nothing shared moves. -/
inductive Effect {N : Type} (board : Board N) (call : Option (Call N))
    (reads : Option N × List N) : Board N → Option (Call N) → Option N × List N → Prop where
  | publish (v : N) (holding : call = some (.holding v)) :
      Effect board call reads
        { board with current := v, sends := board.sends + 1 } (some .done) reads
  | work (reads' : Option N × List N) (step : Reads board.current reads reads') :
      Effect board call reads board call reads'

section Programs
variable {G T A E N : Type}

/-- How the tasks of a program are seen as numbered calls and readers. Nothing is
    asked of task steps outside `allowed`. -/
structure Publisher (p : Program G T A E) (name : UInt64 → N) (allowed : E → Prop) where
  board : G → Board N
  call : T → Option (Call N)
  reads : T → Option N × List N
  begins : A → Bool
  spawned : ∀ g a, reads (p.spawn g a).2 = (none, []) ∧
    if begins a then
      board (p.spawn g a).1 = { board g with counter := fetchAddOne (board g).counter } ∧
        call (p.spawn g a).2 = some (.holding (name (fetchAddOne (board g).counter)))
    else board (p.spawn g a).1 = board g ∧ call (p.spawn g a).2 = none
  stepped : ∀ g t x g' t', allowed x → p.step g t x = some (g', t') →
    Effect (board g) (call t) (reads t) (board g') (call t') (reads t')

variable {p : Program G T A E} {name : UInt64 → N} {allowed : E → Prop}

def Publisher.calls (P : Publisher p name allowed) (s : System G T) : List (Option (Call N)) :=
  s.tasks.map P.call

def Publisher.begun (P : Publisher p name allowed) : Event A E → Bool
  | .spawn a => P.begins a
  | .step _ _ => false

def Publisher.Newer (P : Publisher p name allowed) (s : System G T) (e : Event A E) : Prop :=
  ∀ s', p.next s e = some s' → (P.board s'.shared).sends ≠ (P.board s.shared).sends →
    Older name (P.board s.shared).current (P.board s'.shared).current

def Publisher.QuietNewest (P : Publisher p name allowed) (s : System G T) : Prop :=
  (∀ t ∈ s.tasks, ∀ v, P.call t ≠ some (.holding v)) →
    (P.board s.shared).current = name (P.board s.shared).counter ∧
      (P.board s.shared).counter.toNat = total (P.calls s) + 1

def Publisher.NeverOlder (P : Publisher p name allowed) (s : System G T) : Prop :=
  ∀ t ∈ s.tasks, (P.reads t).2.Pairwise fun later earlier => ¬ Older name later earlier

/-- Publications go forward, the newest is what is current at rest, and no reader
    falls back, all along the run. -/
def Publisher.GoesForward (P : Publisher p name allowed) (s : System G T)
    (es : List (Event A E)) : Prop :=
  Along p.next P.Newer s es ∧ Always p.next P.QuietNewest s es ∧ Always p.next P.NeverOlder s es

/-- A call that publishes was not given the number 0, and none that took its number after it
    has published before it. -/
def Publisher.InOrder (P : Publisher p name allowed) (s : System G T) (e : Event A E) : Prop :=
  ∀ i x s', e = .step i x → p.next s e = some s' →
    (P.board s'.shared).sends ≠ (P.board s.shared).sends →
    (P.calls s)[i]? ≠ some (some (.holding (name 0))) ∧
      ∀ j, i < j → (P.calls s)[j]? ≠ some (some .done)

theorem done_later_iff {cs : List (Option (Call N))} {i : Nat} :
    (∀ j, i < j → cs[j]? ≠ some (some .done)) ↔ some .done ∉ cs.drop (i + 1) := by
  simp only [List.mem_iff_getElem?, List.getElem?_drop, not_exists]
  constructor
  · intro inOrder j
    exact inOrder (i + 1 + j) (by omega)
  · intro inOrder j later
    have atJ := inOrder (j - (i + 1))
    rwa [Nat.add_sub_cancel' later] at atJ

instance [DecidableEq N] (P : Publisher p name allowed) (s : System G T) :
    (e : Event A E) → Decidable (P.InOrder s e)
  | .spawn _ => isTrue fun _ _ _ same => by cases same
  | .step i x =>
    match next : p.next s (.step i x) with
    | none => isTrue fun _ _ _ same moved => by cases same; rw [next] at moved; contradiction
    | some s' =>
      decidable_of_iff ((P.board s'.shared).sends ≠ (P.board s.shared).sends →
          (P.calls s)[i]? ≠ some (some (.holding (name 0))) ∧
            some .done ∉ (P.calls s).drop (i + 1)) <| by
        rw [← done_later_iff]
        constructor
        · intro turn j y s'' same moved sent
          cases same
          cases Option.some.inj (next.symm.trans moved)
          exact turn sent
        · intro inOrder sent
          exact inOrder i x s' rfl next sent

/- What one event does to the calls -/

inductive Publisher.Moves (P : Publisher p name allowed) (s s' : System G T) (e : Event A E) :
    Prop where
  | begin (begun : P.begun e)
      (board : P.board s'.shared =
        { P.board s.shared with counter := fetchAddOne (P.board s.shared).counter })
      (calls : P.calls s' =
        P.calls s ++ [some (.holding (name (fetchAddOne (P.board s.shared).counter)))])
  | beside (notBegun : ¬ P.begun e) (board : P.board s'.shared = P.board s.shared)
      (calls : P.calls s' = P.calls s ++ [none])
  | publish (i : Nat) (x : E) (v : N) (step : e = .step i x)
      (holding : (P.calls s)[i]? = some (some (.holding v)))
      (board : P.board s'.shared =
        { P.board s.shared with current := v, sends := (P.board s.shared).sends + 1 })
      (calls : P.calls s' = (P.calls s).set i (some .done))
  | work (notBegun : ¬ P.begun e) (board : P.board s'.shared = P.board s.shared)
      (calls : P.calls s' = P.calls s)

def Publisher.ReadersMove (P : Publisher p name allowed) (s s' : System G T) : Prop :=
  ∀ t' ∈ s'.tasks, P.reads t' = (none, []) ∨ ∃ t ∈ s.tasks,
    P.reads t' = P.reads t ∨ Reads (P.board s.shared).current (P.reads t) (P.reads t')

theorem set_same {X : Type} {xs : List X} {i : Nat} {x : X} (found : xs[i]? = some x) :
    xs.set i x = xs := by
  obtain ⟨inside, rfl⟩ := List.getElem?_eq_some_iff.mp found
  exact List.set_getElem_self inside

variable (P : Publisher p name allowed) {s s' : System G T} {e : Event A E}

theorem Publisher.moves (within : ∀ i x, e = .step i x → allowed x) (h : p.next s e = some s') :
    P.Moves s s' e ∧ P.ReadersMove s s' := by
  rcases next_cases h with ⟨a, rfl, rfl⟩ | ⟨i, x, t, g, t', rfl, found, moved, rfl⟩
  · obtain ⟨fresh, what⟩ := P.spawned s.shared a
    refine ⟨?_, ?_⟩
    · split at what
      · rename_i begins
        refine .begin begins what.1 ?_
        simp only [Publisher.calls, List.map_append, List.map_cons, List.map_nil, what.2]
      · rename_i other
        refine .beside other what.1 ?_
        simp only [Publisher.calls, List.map_append, List.map_cons, List.map_nil, what.2]
    · intro u member
      rcases List.mem_append.mp member with old | new
      · exact Or.inr ⟨u, old, Or.inl rfl⟩
      · exact Or.inl (List.mem_singleton.mp new ▸ fresh)
  · have effect := P.stepped s.shared t x g t' (within i x rfl) moved
    have here : (P.calls s)[i]? = some (P.call t) := by
      simp only [Publisher.calls, List.getElem?_map, found, Option.map_some]
    have member := List.mem_of_getElem? found
    have others : ∀ u ∈ s.tasks.set i t', u = t' ∨ u ∈ s.tasks := fun u inSet =>
      (List.mem_or_eq_of_mem_set inSet).symm
    generalize board' : P.board g = b at effect
    generalize call' : P.call t' = c at effect
    generalize reads' : P.reads t' = r at effect
    cases effect with
    | publish v holding =>
      refine ⟨.publish i x v rfl (here.trans (congrArg some holding)) board' ?_, ?_⟩
      · rw [Publisher.calls, List.map_set, call']
        rfl
      · intro u inSet
        rcases others u inSet with rfl | old
        · exact Or.inr ⟨t, member, Or.inl reads'⟩
        · exact Or.inr ⟨u, old, Or.inl rfl⟩
    | work r step =>
      refine ⟨.work (by simp [Publisher.begun]) board' ?_, ?_⟩
      · rw [Publisher.calls, List.map_set, call']
        exact set_same here
      · intro u inSet
        rcases others u inSet with rfl | old
        · exact Or.inr ⟨t, member, Or.inr (reads' ▸ step)⟩
        · exact Or.inr ⟨u, old, Or.inl rfl⟩

/-- Events a run may take: allowed steps, and fewer than 2^64 calls. -/
def Publisher.Within (s : System G T) (e : Event A E) : Prop :=
  (∀ i x, e = .step i x → allowed x) ∧ (P.begun e → total (P.calls s) + 1 < 2 ^ 64)

theorem Publisher.total_next (m : P.Moves s s' e) :
    total (P.calls s') = total (P.calls s) + if P.begun e then 1 else 0 := by
  cases m with
  | begin begun board calls => rw [calls, total_append, if_pos begun]; rfl
  | beside notBegun board calls => rw [calls, total_append, if_neg notBegun]; rfl
  | publish i x v step holding board calls => rw [calls, total_set holding, step]; rfl
  | work notBegun board calls => rw [calls, if_neg notBegun, Nat.add_zero]

theorem Publisher.total_run {es : List (Event A E)} (steps : ∀ i x, .step i x ∈ es → allowed x)
    (run : exec p.next s es = some s') :
    total (P.calls s') = total (P.calls s) + es.countP P.begun := by
  induction es generalizing s with
  | nil => cases run; rfl
  | cons e es ih =>
    obtain ⟨m, first, rest⟩ := exec_cons_some.mp run
    have now : ∀ i x, e = .step i x → allowed x := fun i x eq => steps i x (by simp [eq])
    have one := P.total_next (P.moves now first).1
    have more := ih (fun i x later => steps i x (List.mem_cons_of_mem e later)) rest
    rw [List.countP_cons]
    omega

theorem Publisher.along_within {es : List (Event A E)}
    (steps : ∀ i x, .step i x ∈ es → allowed x)
    (few : total (P.calls s) + es.countP P.begun < 2 ^ 64) : Along p.next P.Within s es := by
  induction es generalizing s with
  | nil => trivial
  | cons e es ih =>
    intro s' first
    have now : ∀ i x, e = .step i x → allowed x := fun i x eq => steps i x (by simp [eq])
    have count := P.total_next (P.moves now first).1
    rw [List.countP_cons] at few
    refine ⟨⟨now, fun begun => ?_⟩, ih (fun i x later => steps i x (List.mem_cons_of_mem e later)) ?_⟩
    · rw [if_pos begun] at few
      omega
    · omega

/- Calls after an event, in whatever order they publish -/

section Next
variable {P : Publisher p name allowed} {k : Nat}

theorem few_next (few : total (P.calls s) < 2 ^ 64) (within : P.Within s e)
    (move : P.Moves s s' e) : total (P.calls s') < 2 ^ 64 := by
  rw [P.total_next move]
  split
  · rename_i begun
    exact within.2 begun
  · exact few

theorem numbering_next (numbering : Numbering name (P.board s.shared).counter (P.calls s))
    (move : P.Moves s s' e) : Numbering name (P.board s'.shared).counter (P.calls s') := by
  cases move with
  | begin begun board calls => rw [board, calls]; exact numbering_join numbering
  | beside notBegun board calls => rw [board, calls]; exact numbering_beside numbering
  | publish i x v step holding board calls =>
    rw [board, calls]
    exact numbering_publish numbering holding
  | work notBegun board calls => rw [board, calls]; exact numbering

theorem rank_next (move : P.Moves s s' e) {i : Nat} (inside : i ≤ s.tasks.length) :
    rank (P.calls s') i = rank (P.calls s) i := by
  have within : i ≤ (P.calls s).length := by simpa only [Publisher.calls, List.length_map] using inside
  cases move with
  | begin begun board calls => rw [calls, rank_append _ within]
  | beside notBegun board calls => rw [calls, rank_append _ within]
  | publish j x v step holding board calls => rw [calls, rank_set holding]
  | work notBegun board calls => rw [calls]

theorem spent_next (spent : Spent (P.calls s) k) (move : P.Moves s s' e) :
    Spent (P.calls s') k := by
  cases move with
  | begin begun board calls => rw [calls]; exact spent_append spent _
  | beside notBegun board calls => rw [calls]; exact spent_append spent _
  | publish i x v step holding board calls => rw [calls]; exact spent_publish spent holding
  | work notBegun board calls => rw [calls]; exact spent

end Next

/- Readers -/

/-- What a reader has pushed, latest first, is named by numbers that only went
    up, to `m` at most, which is what it holds if it holds anything. -/
structure Ascending (name : UInt64 → N) (r : Option N × List N) (ns : List UInt64) (m : UInt64) :
    Prop where
  pushed : r.2 = ns.map name
  descending : ns.Pairwise (· ≥ ·)
  bound : ∀ n ∈ ns, n ≤ m
  held : r.1 = none ∨ r.1 = some (name m)

def ReaderOk (name : UInt64 → N) (top : UInt64) (r : Option N × List N) : Prop :=
  ∃ ns m, Ascending name r ns m ∧ m ≤ top

theorem reader_new (top : UInt64) : ReaderOk name top ((none, []) : Option N × List N) := by
  refine ⟨[], 0, ⟨rfl, .nil, ?_, Or.inl rfl⟩, UInt64.zero_le⟩
  intro n member
  simp at member

theorem reader_mono {top top' : UInt64} {r : Option N × List N} (ok : ReaderOk name top r)
    (up : top ≤ top') : ReaderOk name top' r := by
  obtain ⟨ns, m, ascending, below⟩ := ok
  exact ⟨ns, m, ascending, UInt64.le_trans below up⟩

theorem reader_step {top : UInt64} {r r' : Option N × List N} (ok : ReaderOk name top r)
    (step : Reads (name top) r r') : ReaderOk name top r' := by
  obtain ⟨ns, m, ascending, below⟩ := ok
  cases step with
  | take held pushed =>
    refine ⟨ns, top, ⟨ascending.pushed, ascending.descending, ?_, Or.inr rfl⟩, UInt64.le_refl _⟩
    intro n member
    exact UInt64.le_trans (ascending.bound n member) below
  | push held held' pushed fresh own next =>
    have named : ∀ v ∈ fresh, v = name m := by
      intro v member
      have holds := own v member
      rcases ascending.held with none_ | some_
      · simp [holds] at none_
      · exact Option.some.inj (holds.symm.trans some_)
    refine ⟨fresh.map (fun _ => m) ++ ns, m, ?_, below⟩
    have copies : ∀ n ∈ fresh.map (fun _ => m), n = m := by
      intro n member
      obtain ⟨_, _, same⟩ := List.mem_map.mp member
      exact same.symm
    constructor
    case pushed =>
      have copied : fresh = fresh.map (name ∘ fun _ => m) :=
        (List.map_id fresh).symm.trans (List.map_congr_left named)
      rw [List.map_append, List.map_map, ← copied, ← ascending.pushed]
    case descending =>
      rw [List.pairwise_append]
      refine ⟨List.pairwise_of_forall_mem_list ?_, ascending.descending, ?_⟩
      · intro a inA b inB
        rw [copies a inA, copies b inB]
        exact UInt64.le_refl m
      · intro a inA b inB
        rw [copies a inA]
        exact ascending.bound b inB
    case bound =>
      intro n member
      rcases List.mem_append.mp member with new | old
      · rw [copies n new]
        exact UInt64.le_refl m
      · exact ascending.bound n old
    case held =>
      rcases next with gone | kept
      · exact Or.inl gone
      · exact kept ▸ ascending.held

theorem reader_never_older (injective : Function.Injective name) {top : UInt64}
    {r : Option N × List N} (ok : ReaderOk name top r) :
    r.2.Pairwise fun later earlier => ¬ Older name later earlier := by
  obtain ⟨ns, m, ascending, _⟩ := ok
  rw [ascending.pushed, List.pairwise_map]
  apply ascending.descending.imp
  rintro a b notLess ⟨x, y, sameA, sameB, less⟩
  rw [injective sameA, injective sameB] at notLess
  exact absurd less (UInt64.not_lt.mpr notLess)

/- Runs -/

/-- What holds while calls publish in order: `k` is the number of what is current. -/
structure Publisher.Ordered (s : System G T) (k : Nat) : Prop where
  few : total (P.calls s) < 2 ^ 64
  numbering : Numbering name (P.board s.shared).counter (P.calls s)
  latest : Latest (P.calls s) k
  exactly : k < 2 ^ 64
  current : (P.board s.shared).current = name (UInt64.ofNat k)
  readers : ∀ t ∈ s.tasks, ReaderOk name (UInt64.ofNat k) (P.reads t)

variable {P} {k : Nat}

theorem readers_next (ordered : P.Ordered s k) (move : P.ReadersMove s s') :
    ∀ t' ∈ s'.tasks, ReaderOk name (UInt64.ofNat k) (P.reads t') := by
  intro t' member
  rcases move t' member with new | ⟨t, old, same | step⟩
  · exact new ▸ reader_new _
  · exact same ▸ ordered.readers t old
  · rw [ordered.current] at step
    exact reader_step (ordered.readers t old) step

theorem newer_iff_silent (silent : (P.board s'.shared).sends = (P.board s.shared).sends)
    (h : p.next s e = some s') : P.Newer s e ↔ P.InOrder s e := by
  constructor
  · intro _ i x s'' _ next moved
    cases Option.some.inj (h.symm.trans next)
    exact absurd silent moved
  · intro _ s'' next moved
    cases Option.some.inj (h.symm.trans next)
    exact absurd silent moved

/-- A step publishes something newer exactly when the call's turn has come. -/
theorem newer_iff_in_order (injective : Function.Injective name) (ordered : P.Ordered s k)
    (move : P.Moves s s' e) (h : p.next s e = some s') : P.Newer s e ↔ P.InOrder s e := by
  cases move with
  | publish i x v step holding board calls =>
    have sends : (P.board s'.shared).sends ≠ (P.board s.shared).sends := by
      rw [board]
      exact Nat.succ_ne_self _
    have turn := publishes_newer_iff injective ordered.numbering ordered.few ordered.latest
      ordered.exactly holding
    have notZero : v ≠ name 0 ↔ (P.calls s)[i]? ≠ some (some (.holding (name 0))) := by
      simp [holding]
    rw [← ordered.current, notZero] at turn
    constructor
    · intro newer j y s'' same next _
      cases step.symm.trans same
      have published := newer s' h sends
      rw [board] at published
      exact turn.mp published
    · intro inOrder s'' next _
      cases Option.some.inj (h.symm.trans next)
      rw [board]
      exact turn.mpr (inOrder i x s' step h sends)
  | begin begun board calls => exact newer_iff_silent (by rw [board]) h
  | beside notBegun board calls => exact newer_iff_silent (by rw [board]) h
  | work notBegun board calls => exact newer_iff_silent (by rw [board]) h

theorem ordered_next (injective : Function.Injective name) (ordered : P.Ordered s k)
    (within : P.Within s e) (newer : P.Newer s e) (h : p.next s e = some s') :
    ∃ k', P.Ordered s' k' := by
  obtain ⟨move, readersMove⟩ := P.moves within.1 h
  have readers := readers_next ordered readersMove
  have few := few_next ordered.few within move
  have numbering := numbering_next ordered.numbering move
  cases move with
  | begin begun board calls =>
    refine ⟨k, few, numbering, ?_, ordered.exactly, ?_, readers⟩
    · rw [calls]
      exact latest_append ordered.latest (by simp)
    · rw [board]
      exact ordered.current
  | beside notBegun board calls =>
    refine ⟨k, few, numbering, ?_, ordered.exactly, ?_, readers⟩
    · rw [calls]
      exact latest_append ordered.latest (by simp)
    · rw [board]
      exact ordered.current
  | work notBegun board calls =>
    refine ⟨k, few, numbering, ?_, ordered.exactly, ?_, readers⟩
    · rw [calls]
      exact ordered.latest
    · rw [board]
      exact ordered.current
  | publish i x v step holding board calls =>
    have older := newer s' h (by rw [board]; exact Nat.succ_ne_self _)
    have number := ordered.numbering.held i v holding
    rw [board, ordered.current, number] at older
    have higher := (older_iff injective _ _).mp older
    obtain ⟨latest, exactly⟩ := latest_publish ordered.few ordered.latest ordered.exactly holding higher
    refine ⟨rank (P.calls s) i + 2, few, numbering, ?_, exactly, ?_, ?_⟩
    · rw [calls]
      exact latest
    · rw [board]
      exact number
    · intro t member
      exact reader_mono (readers t member) (UInt64.le_of_lt higher)

theorem ordered_quiet (ordered : P.Ordered s k) : P.QuietNewest s := by
  intro quiet
  have noneHolds : ∀ (i : Nat) v, (P.calls s)[i]? ≠ some (some (.holding v)) := by
    intro i v holding
    simp only [Publisher.calls, List.getElem?_map, Option.map_eq_some_iff] at holding
    obtain ⟨t, found, holds⟩ := holding
    exact quiet t (List.mem_of_getElem? found) v holds
  obtain ⟨newest, whole⟩ :=
    quiet_latest ordered.numbering ordered.latest ordered.exactly noneHolds
  rw [ordered.current, newest]
  exact ⟨rfl, whole⟩

theorem ordered_never_older (injective : Function.Injective name) (ordered : P.Ordered s k) :
    P.NeverOlder s := fun t member => reader_never_older injective (ordered.readers t member)

theorem ordered_start {g : G} (counter : (P.board g).counter = 1)
    (current : (P.board g).current = name 1) : P.Ordered ⟨g, []⟩ 1 := by
  constructor
  case few => exact Nat.two_pow_pos 64
  case numbering => exact counter ▸ numbering_start name
  case latest => exact latest_start
  case exactly => exact Nat.one_lt_two_pow (by decide)
  case current => exact current
  case readers =>
    intro t member
    simp at member

/-- For every interleaving of fewer than 2^64 calls: each publication is newer
    than the last, nothing but the newest is current once all calls are done and
    no reader falls back, if and only if the calls publish in the order of their
    numbers. -/
theorem newer_iff_published_in_order (injective : Function.Injective name) {g : G}
    (counter : (P.board g).counter = 1) (current : (P.board g).current = name 1)
    {es : List (Event A E)} (steps : ∀ i x, .step i x ∈ es → allowed x)
    (few : es.countP P.begun < 2 ^ 64) :
    P.GoesForward ⟨g, []⟩ es ↔ Along p.next P.InOrder ⟨g, []⟩ es := by
  have start := ordered_start (P := P) counter current
  have noCalls : total (P.calls ⟨g, []⟩) = 0 := rfl
  have within : Along p.next P.Within ⟨g, []⟩ es := P.along_within steps (by omega)
  have same : Along p.next P.Newer ⟨g, []⟩ es ↔ Along p.next P.InOrder ⟨g, []⟩ es := by
    apply along_iff_along (I := fun s => ∃ k, P.Ordered s k) ?_ ?_ within ⟨1, start⟩
    · rintro s e s' ⟨k, ordered⟩ now newer h
      exact ordered_next injective ordered now newer h
    · rintro s e s' ⟨k, ordered⟩ now h
      exact newer_iff_in_order injective ordered (P.moves now.1 h).1 h
  have everywhere : ∀ Q : System G T → Prop, (∀ s, (∃ k, P.Ordered s k) → Q s) →
      Along p.next P.Newer ⟨g, []⟩ es → Always p.next Q ⟨g, []⟩ es := by
    intro Q holds newer
    apply always_of_along holds ?_ (along_and within newer) ⟨1, start⟩
    rintro s e s' ⟨k, ordered⟩ both h
    exact ordered_next injective ordered both.1 both.2 h
  constructor
  · rintro ⟨newer, _, _⟩
    exact same.mp newer
  · intro inOrder
    have newer := same.mpr inOrder
    refine ⟨newer, everywhere _ ?_ newer, everywhere _ ?_ newer⟩
    · rintro s ⟨k, ordered⟩
      exact ordered_quiet ordered
    · rintro s ⟨k, ordered⟩
      exact ordered_never_older injective ordered

theorem stale_at_rest {es : List (Event A E)} (run : exec p.next s es = some s')
    (quiet : ∀ v, some (.holding v) ∉ P.calls s')
    (stale : (P.board s'.shared).current ≠ name (P.board s'.shared).counter) :
    ¬ P.GoesForward s es := by
  rintro ⟨_, newest, _⟩
  have atRest : P.QuietNewest s' := always_last newest run
  have finished : ∀ t ∈ s'.tasks, ∀ v, P.call t ≠ some (.holding v) := by
    intro t member v holding
    exact quiet v (List.mem_map.mpr ⟨t, member, holding⟩)
  exact stale (atRest finished).1

/- Without any order -/

/-- What holds in whatever order calls publish: what is current has a number of its own. -/
structure Publisher.Published (P : Publisher p name allowed) (s : System G T) (k : Nat) : Prop where
  few : total (P.calls s) < 2 ^ 64
  numbering : Numbering name (P.board s.shared).counter (P.calls s)
  spent : Spent (P.calls s) k
  current : (P.board s.shared).current = name (UInt64.ofNat k)

/-- `k` stays spent, and once something was published its name is not the one of `k`. -/
structure Publisher.Since (P : Publisher p name allowed) (k sends : Nat) (s : System G T) :
    Prop where
  few : total (P.calls s) < 2 ^ 64
  numbering : Numbering name (P.board s.shared).counter (P.calls s)
  spent : Spent (P.calls s) k
  fresh : (P.board s.shared).sends = sends ∨
    (P.board s.shared).current ≠ name (UInt64.ofNat k)

theorem published_next (published : P.Published s k) (within : P.Within s e)
    (h : p.next s e = some s') : ∃ k', P.Published s' k' := by
  have move := (P.moves within.1 h).1
  have few := few_next published.few within move
  have numbering := numbering_next published.numbering move
  have spent := spent_next published.spent move
  cases move with
  | begin begun board calls => exact ⟨k, few, numbering, spent, by rw [board]; exact published.current⟩
  | beside notBegun board calls =>
    exact ⟨k, few, numbering, spent, by rw [board]; exact published.current⟩
  | work notBegun board calls =>
    exact ⟨k, few, numbering, spent, by rw [board]; exact published.current⟩
  | publish i x v step holding board calls =>
    refine ⟨rank (P.calls s) i + 2, few, numbering, ?_, ?_⟩
    · rw [calls]
      exact spent_own holding
    · rw [board]
      exact published.numbering.held i v holding

theorem published_start {g : G} (counter : (P.board g).counter = 1)
    (current : (P.board g).current = name 1) : P.Published ⟨g, []⟩ 1 :=
  have ordered := ordered_start (P := P) counter current
  ⟨ordered.few, ordered.numbering, ordered.latest.spent, ordered.current⟩

theorem published_run {es : List (Event A E)} (published : P.Published s k)
    (within : Along p.next P.Within s es) (run : exec p.next s es = some s') :
    ∃ k', P.Published s' k' := by
  apply along_invariant (I := fun s => ∃ k, P.Published s k) ?_ run within ⟨k, published⟩
  rintro s e s' ⟨k, published⟩ within h
  exact published_next published within h

theorem since_next (injective : Function.Injective name) {sends : Nat}
    (since : P.Since k sends s) (within : P.Within s e) (h : p.next s e = some s') :
    P.Since k sends s' := by
  have move := (P.moves within.1 h).1
  refine ⟨few_next since.few within move, numbering_next since.numbering move,
    spent_next since.spent move, ?_⟩
  cases move with
  | begin begun board calls => rw [board]; exact since.fresh
  | beside notBegun board calls => rw [board]; exact since.fresh
  | work notBegun board calls => rw [board]; exact since.fresh
  | publish i x v step holding board calls =>
    have unspent := held_not_spent injective since.numbering since.few since.spent holding
    refine Or.inr ?_
    rw [board]
    exact unspent

theorem current_fresh (injective : Function.Injective name) (published : P.Published s k)
    {es : List (Event A E)} (within : Along p.next P.Within s es)
    (run : exec p.next s es = some s')
    (moved : (P.board s'.shared).sends ≠ (P.board s.shared).sends) :
    (P.board s'.shared).current ≠ (P.board s.shared).current := by
  have before : P.Since k (P.board s.shared).sends s :=
    ⟨published.few, published.numbering, published.spent, Or.inl rfl⟩
  have after := along_invariant (I := P.Since k (P.board s.shared).sends)
    (fun _ _ _ since within h => since_next injective since within h) run within before
  rcases after.fresh with unmoved | other
  · exact absurd unmoved moved
  · rw [published.current]
    exact other

end Programs

end NumberedPublishing
