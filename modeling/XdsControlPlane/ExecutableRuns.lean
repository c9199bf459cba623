import Mathlib

/-!
Runs of an executable step function, and tasks that interleave over one shared
state. A step that is not enabled returns `none`; a run is a list of events
that are all enabled in turn. Conditions may be imposed on every step taken
(`Along`) and properties demanded of every state reached (`Always`).
Nothing here depends on what the states or the tasks are.
-/
namespace ExecutableRuns

section Runs
variable {S E : Type}

def exec (step : S → E → Option S) : S → List E → Option S
  | s, [] => some s
  | s, e :: es => (step s e).bind fun t => exec step t es

/-- Every step the run takes meets `ok` in the state it is taken from. -/
def Along (step : S → E → Option S) (ok : S → E → Prop) : S → List E → Prop
  | _, [] => True
  | s, e :: es => ∀ t, step s e = some t → ok s e ∧ Along step ok t es

/-- Every state the run reaches, the first one included, satisfies `P`. -/
def Always (step : S → E → Option S) (P : S → Prop) : S → List E → Prop
  | s, [] => P s
  | s, e :: es => P s ∧ ∀ t, step s e = some t → Always step P t es

variable {step : S → E → Option S}

instance decidableAlong {ok : S → E → Prop} [∀ s e, Decidable (ok s e)] (s : S) :
    (es : List E) → Decidable (Along step ok s es)
  | [] => isTrue trivial
  | e :: es =>
    match first : step s e with
    | none => isTrue fun _ same => absurd (first.symm.trans same) nofun
    | some t =>
      have : Decidable (Along step ok t es) := decidableAlong t es
      decidable_of_iff (ok s e ∧ Along step ok t es)
        ⟨fun both _ same => Option.some.inj (first.symm.trans same) ▸ both, fun all => all t first⟩

theorem exec_cons_some {s u : S} {e : E} {es : List E} :
    exec step s (e :: es) = some u ↔ ∃ t, step s e = some t ∧ exec step t es = some u := by
  simp only [exec, Option.bind_eq_some_iff]

theorem exec_append {s : S} (es fs : List E) :
    exec step s (es ++ fs) = (exec step s es).bind fun t => exec step t fs := by
  induction es generalizing s with
  | nil => rfl
  | cons e es ih =>
    simp only [List.cons_append, exec, Option.bind_assoc]
    cases step s e with
    | none => rfl
    | some t => exact ih

theorem exec_append_some {s u : S} {es fs : List E} :
    exec step s (es ++ fs) = some u ↔
      ∃ t, exec step s es = some t ∧ exec step t fs = some u := by
  rw [exec_append, Option.bind_eq_some_iff]

theorem exec_invariant {I : S → Prop}
    (preserved : ∀ s e t, I s → step s e = some t → I t) {s u : S} {es : List E}
    (run : exec step s es = some u) (initial : I s) : I u := by
  induction es generalizing s with
  | nil => exact Option.some.inj run ▸ initial
  | cons e es ih =>
    obtain ⟨t, first, rest⟩ := exec_cons_some.mp run
    exact ih rest (preserved s e t initial first)

theorem along_invariant {I : S → Prop} {ok : S → E → Prop}
    (preserved : ∀ s e t, I s → ok s e → step s e = some t → I t) {s u : S} {es : List E}
    (run : exec step s es = some u) (along : Along step ok s es) (initial : I s) : I u := by
  induction es generalizing s with
  | nil => exact Option.some.inj run ▸ initial
  | cons e es ih =>
    obtain ⟨t, first, rest⟩ := exec_cons_some.mp run
    obtain ⟨allowed, later⟩ := along t first
    exact ih rest later (preserved s e t initial allowed first)

/-- What no event of a run changes is in the end as it was. -/
theorem exec_same {X : Type} {f : S → X} {s u : S} {es : List E}
    (same : ∀ e ∈ es, ∀ s t, step s e = some t → f t = f s) (run : exec step s es = some u) :
    f u = f s := by
  induction es generalizing s with
  | nil => exact congrArg f (Option.some.inj run).symm
  | cons e es ih =>
    obtain ⟨t, first, rest⟩ := exec_cons_some.mp run
    have later := ih (fun d inRest => same d (List.mem_cons_of_mem e inRest)) rest
    exact later.trans (same e List.mem_cons_self s t first)

theorem always_first {P : S → Prop} {s : S} {es : List E} (all : Always step P s es) : P s := by
  cases es with
  | nil => exact all
  | cons e es => exact all.1

theorem always_reached {P : S → Prop} {s t : S} {es fs : List E}
    (all : Always step P s (es ++ fs)) (run : exec step s es = some t) : P t := by
  induction es generalizing s with
  | nil => exact Option.some.inj run ▸ always_first all
  | cons e es ih =>
    obtain ⟨mid, first, rest⟩ := exec_cons_some.mp run
    exact ih (all.2 mid first) rest

theorem always_last {P : S → Prop} {s u : S} {es : List E} (all : Always step P s es)
    (run : exec step s es = some u) : P u :=
  always_reached (by rwa [List.append_nil]) run

theorem along_of_forall {ok : S → E → Prop} (holds : ∀ s e, ok s e) (s : S) (es : List E) :
    Along step ok s es := by
  induction es generalizing s with
  | nil => trivial
  | cons e es ih => exact fun t _ => ⟨holds s e, ih t⟩

theorem along_of_mem {ok : E → Prop} {s : S} {es : List E} (holds : ∀ e ∈ es, ok e) :
    Along step (fun _ e => ok e) s es := by
  induction es generalizing s with
  | nil => trivial
  | cons e es ih =>
    intro t _
    exact ⟨holds e List.mem_cons_self, ih fun d later => holds d (List.mem_cons_of_mem e later)⟩

/-- A condition on a whole run is a condition on each step it takes. -/
theorem along_at {ok : S → E → Prop} {s t u : S} {e : E} (es fs : List E)
    (along : Along step ok s (es ++ e :: fs)) (run : exec step s es = some t)
    (moved : step t e = some u) : ok t e := by
  induction es generalizing s with
  | nil =>
    cases Option.some.inj run
    exact (along u moved).1
  | cons d es ih =>
    obtain ⟨mid, first, rest⟩ := exec_cons_some.mp run
    exact ih (along mid first).2 rest

theorem along_append_left {ok : S → E → Prop} {s : S} {es fs : List E}
    (along : Along step ok s (es ++ fs)) : Along step ok s es := by
  induction es generalizing s with
  | nil => trivial
  | cons e es ih => exact fun t moved => ⟨(along t moved).1, ih (along t moved).2⟩

theorem along_append_right {ok : S → E → Prop} {s t : S} {es fs : List E}
    (along : Along step ok s (es ++ fs)) (run : exec step s es = some t) : Along step ok t fs := by
  induction es generalizing s with
  | nil => exact Option.some.inj run ▸ along
  | cons e es ih =>
    obtain ⟨mid, first, rest⟩ := exec_cons_some.mp run
    exact ih (along mid first).2 rest

/-- A run that breaks a condition keeps it up to some step that does not meet it. -/
theorem along_breaks {ok : S → E → Prop} {s : S} {es : List E} (breaks : ¬ Along step ok s es) :
    ∃ es₁ e es₂ t u, es = es₁ ++ e :: es₂ ∧ Along step ok s es₁ ∧ exec step s es₁ = some t ∧
      step t e = some u ∧ ¬ ok t e := by
  induction es generalizing s with
  | nil => exact absurd trivial breaks
  | cons e es ih =>
    obtain ⟨t, first, fails⟩ : ∃ t, step s e = some t ∧ ¬ (ok s e ∧ Along step ok t es) := by
      by_contra none
      exact breaks fun t first => Classical.byContradiction fun fails => none ⟨t, first, fails⟩
    by_cases holds : ok s e
    · obtain ⟨es₁, d, es₂, u, v, rfl, along, run, moved, broken⟩ := ih fun rest => fails ⟨holds, rest⟩
      refine ⟨e :: es₁, d, es₂, u, v, rfl, ?_, exec_cons_some.mpr ⟨t, first, run⟩, moved, broken⟩
      intro t' first'
      cases Option.some.inj (first.symm.trans first')
      exact ⟨holds, along⟩
    · exact ⟨[], e, es, s, t, rfl, trivial, rfl, first, holds⟩

theorem along_and {ok ok' : S → E → Prop} {s : S} {es : List E} (first : Along step ok s es)
    (second : Along step ok' s es) : Along step (fun s e => ok s e ∧ ok' s e) s es := by
  induction es generalizing s with
  | nil => trivial
  | cons e es ih =>
    intro t moved
    exact ⟨⟨(first t moved).1, (second t moved).1⟩, ih (first t moved).2 (second t moved).2⟩

/-- A property of every state on the way holds exactly when every step meets its
    condition, if one step shows so; the environment keeps to what is `allowed`. -/
theorem always_iff_along_within {I P : S → Prop} {ok allowed : S → E → Prop}
    (preserved : ∀ s e t, I s → allowed s e → step s e = some t → I t)
    (one : ∀ s e t, I s → allowed s e → P s → step s e = some t → (P t ↔ ok s e))
    {s : S} {es : List E} (within : Along step allowed s es) (initial : I s) (start : P s) :
    Always step P s es ↔ Along step ok s es := by
  induction es generalizing s with
  | nil => simp only [Always, Along, start]
  | cons e es ih =>
    simp only [Always, Along, start, true_and]
    refine forall₂_congr fun t first => ?_
    obtain ⟨now, later⟩ := within t first
    have edge := one s e t initial now start first
    have next := preserved s e t initial now first
    constructor
    · intro all
      have reached : P t := always_first all
      exact ⟨edge.mp reached, (ih later next reached).mp all⟩
    · rintro ⟨allowed, along⟩
      exact (ih later next (edge.mpr allowed)).mpr along

theorem always_iff_along {I P : S → Prop} {ok : S → E → Prop}
    (preserved : ∀ s e t, I s → step s e = some t → I t)
    (one : ∀ s e t, I s → P s → step s e = some t → (P t ↔ ok s e))
    {s : S} (es : List E) (initial : I s) (start : P s) :
    Always step P s es ↔ Along step ok s es :=
  always_iff_along_within (fun s e t inv _ h => preserved s e t inv h)
    (fun s e t inv _ before h => one s e t inv before h)
    (along_of_forall (fun _ _ => trivial) s es) initial start

/-- A condition that an invariant gives on every allowed step holds along the run. -/
theorem along_within {I : S → Prop} {ok allowed : S → E → Prop}
    (kept : ∀ s e t, I s → allowed s e → step s e = some t → I t)
    (one : ∀ s e t, I s → allowed s e → step s e = some t → ok s e)
    {s : S} {es : List E} (within : Along step allowed s es) (initial : I s) :
    Along step ok s es := by
  induction es generalizing s with
  | nil => trivial
  | cons e es ih =>
    intro t first
    obtain ⟨now, later⟩ := within t first
    exact ⟨one s e t initial now first, ih later (kept s e t initial now first)⟩

/-- Two conditions that agree on every step from a state of the invariant
    impose the same on a run. -/
theorem along_congr_within {I : S → Prop} {ok ok' allowed : S → E → Prop}
    (preserved : ∀ s e t, I s → allowed s e → step s e = some t → I t)
    (one : ∀ s e t, I s → allowed s e → step s e = some t → (ok s e ↔ ok' s e))
    {s : S} {es : List E} (within : Along step allowed s es) (initial : I s) :
    Along step ok s es ↔ Along step ok' s es := by
  induction es generalizing s with
  | nil => exact Iff.rfl
  | cons e es ih =>
    refine forall₂_congr fun t first => ?_
    obtain ⟨now, later⟩ := within t first
    exact and_congr (one s e t initial now first)
      (ih later (preserved s e t initial now first))

/-- Where a condition keeps the invariant that ties it to another one, they are
    the same condition on a run. -/
theorem along_iff_along {I : S → Prop} {ok ok' allowed : S → E → Prop}
    (kept : ∀ s e t, I s → allowed s e → ok s e → step s e = some t → I t)
    (one : ∀ s e t, I s → allowed s e → step s e = some t → (ok s e ↔ ok' s e))
    {s : S} {es : List E} (within : Along step allowed s es) (initial : I s) :
    Along step ok s es ↔ Along step ok' s es := by
  induction es generalizing s with
  | nil => exact Iff.rfl
  | cons e es ih =>
    refine forall₂_congr fun t first => ?_
    obtain ⟨now, later⟩ := within t first
    have edge := one s e t initial now first
    constructor
    · rintro ⟨holds, rest⟩
      exact ⟨edge.mp holds, (ih later (kept s e t initial now holds first)).mp rest⟩
    · rintro ⟨holds', rest⟩
      have holds := edge.mpr holds'
      exact ⟨holds, (ih later (kept s e t initial now holds first)).mpr rest⟩

theorem always_of_along {I P : S → Prop} {ok : S → E → Prop} (holds : ∀ s, I s → P s)
    (kept : ∀ s e t, I s → ok s e → step s e = some t → I t) {s : S} {es : List E}
    (along : Along step ok s es) (initial : I s) : Always step P s es := by
  induction es generalizing s with
  | nil => exact holds s initial
  | cons e es ih =>
    refine ⟨holds s initial, fun t first => ?_⟩
    obtain ⟨now, later⟩ := along t first
    exact ih later (kept s e t initial now first)

/-- Two machines that answer related states with related states, and refuse
    together, stay related over whole runs. -/
theorem exec_related {T : Type} {step' : T → E → Option T} {R : S → T → Prop} {allowed : E → Prop}
    (one : ∀ s t e, R s t → allowed e → Option.Rel R (step s e) (step' t e)) {s : S} {t : T}
    {es : List E} (within : ∀ e ∈ es, allowed e) (initial : R s t) :
    Option.Rel R (exec step s es) (exec step' t es) := by
  induction es generalizing s t with
  | nil => exact .some initial
  | cons e es ih =>
    have now := one s t e initial (within e List.mem_cons_self)
    have later : ∀ d ∈ es, allowed d := fun d inRest => within d (List.mem_cons_of_mem e inRest)
    simp only [exec]
    generalize step s e = left at now
    generalize step' t e = right at now
    cases now with
    | none => exact .none
    | some next => exact ih later next

end Runs

/-- Tasks over a shared state `G`. A new task may act on the shared state at
    once; afterwards each of its steps is atomic and may be taken at any time. -/
structure Program (G T A E : Type) where
  spawn : G → A → G × T
  step : G → T → E → Option (G × T)

structure System (G T : Type) where
  shared : G
  tasks : List T
  deriving DecidableEq, Repr

inductive Event (A E : Type) where
  | spawn : A → Event A E
  | step : Nat → E → Event A E
  deriving DecidableEq, Repr

section Tasks
variable {G T A E : Type} (p : Program G T A E)

def Program.next (s : System G T) : Event A E → Option (System G T)
  | .spawn a => some ⟨(p.spawn s.shared a).1, s.tasks ++ [(p.spawn s.shared a).2]⟩
  | .step i e => s.tasks[i]?.bind fun t =>
      (p.step s.shared t e).map fun r => ⟨r.1, s.tasks.set i r.2⟩

variable {p}

/-- What one event can do: append one task, or advance one task. -/
theorem next_cases {s s' : System G T} {e : Event A E} (h : p.next s e = some s') :
    (∃ a, e = .spawn a ∧
      s' = ⟨(p.spawn s.shared a).1, s.tasks ++ [(p.spawn s.shared a).2]⟩) ∨
    (∃ i x t g t', e = .step i x ∧ s.tasks[i]? = some t ∧ p.step s.shared t x = some (g, t') ∧
      s' = ⟨g, s.tasks.set i t'⟩) := by
  cases e with
  | spawn a => exact Or.inl ⟨a, rfl, (Option.some.inj h).symm⟩
  | step i x =>
    simp only [Program.next, Option.bind_eq_some_iff, Option.map_eq_some_iff] at h
    obtain ⟨t, found, ⟨g, t'⟩, moved, rfl⟩ := h
    exact Or.inr ⟨i, x, t, g, t', rfl, found, moved, rfl⟩

theorem tasks_grow {s s' : System G T} {e : Event A E} (h : p.next s e = some s') :
    s.tasks.length ≤ s'.tasks.length := by
  rcases next_cases h with ⟨_, _, rfl⟩ | ⟨_, _, _, _, _, _, _, _, rfl⟩ <;> simp

theorem next_step {s : System G T} {i : Nat} {t t' : T} {g : G} {x : E}
    (found : s.tasks[i]? = some t) (moved : p.step s.shared t x = some (g, t')) :
    p.next s (.step i x) = some ⟨g, s.tasks.set i t'⟩ := by
  simp only [Program.next, found, Option.bind_some, moved, Option.map_some]

theorem exec_alone {s : System G T} {i : Nat} {t t' : T} {g : G} {xs : List E}
    (found : s.tasks[i]? = some t)
    (run : exec (fun r x => p.step r.1 r.2 x) (s.shared, t) xs = some (g, t')) :
    exec p.next s (xs.map (.step i)) = some ⟨g, s.tasks.set i t'⟩ := by
  have inside := (List.getElem?_eq_some_iff.mp found).1
  induction xs generalizing s t with
  | nil =>
    cases run
    obtain ⟨_, rfl⟩ := List.getElem?_eq_some_iff.mp found
    simp only [List.map_nil, exec, List.set_getElem_self]
  | cons x xs ih =>
    obtain ⟨⟨g₁, t₁⟩, moved, rest⟩ := exec_cons_some.mp run
    refine exec_cons_some.mpr ⟨_, next_step found moved, ?_⟩
    have later := ih (s := ⟨g₁, s.tasks.set i t₁⟩) (by simp [inside]) rest (by simpa using inside)
    simpa only [List.set_set] using later

theorem mem_steps {i j : Nat} {x : E} {xs : List E} :
    (.step j x : Event A E) ∈ xs.map (.step i) ↔ j = i ∧ x ∈ xs := by
  simp only [List.mem_map, Event.step.injEq]
  constructor
  · rintro ⟨y, member, rfl, rfl⟩
    exact ⟨rfl, member⟩
  · rintro ⟨rfl, member⟩
    exact ⟨x, member, rfl, rfl⟩

theorem getElem?_append_one {ts : List T} {t u : T} {i : Nat}
    (h : (ts ++ [u])[i]? = some t) : ts[i]? = some t ∨ (i = ts.length ∧ t = u) := by
  rcases Nat.lt_or_ge i ts.length with inside | outside
  · exact Or.inl (by rwa [List.getElem?_append_left inside] at h)
  · rw [List.getElem?_append_right outside, List.getElem?_singleton] at h
    split at h
    · exact Or.inr ⟨by omega, (Option.some.inj h).symm⟩
    · contradiction

theorem getElem?_set_cases {ts : List T} {t u : T} {i j : Nat}
    (h : (ts.set i u)[j]? = some t) : (j = i ∧ t = u) ∨ (j ≠ i ∧ ts[j]? = some t) := by
  rw [List.getElem?_set] at h
  split at h
  · rename_i same
    split at h
    · exact Or.inl ⟨same.symm, (Option.some.inj h).symm⟩
    · contradiction
  · rename_i different
    exact Or.inr ⟨fun eq => different eq.symm, h⟩

theorem getElem?_append_other {ts : List T} {t u : T} {i : Nat}
    (h : (ts ++ [u])[i]? = some t) (other : t ≠ u) : ts[i]? = some t :=
  (getElem?_append_one h).resolve_right fun last => other last.2

theorem getElem?_set_other {ts : List T} {t u : T} {i j : Nat}
    (h : (ts.set i u)[j]? = some t) (other : t ≠ u) : ts[j]? = some t := by
  rcases getElem?_set_cases h with ⟨_, same⟩ | ⟨_, old⟩
  · exact absurd same other
  · exact old

theorem task_untouched {s s' : System G T} {i : Nat} {t : T} {es : List (Event A E)}
    (apart : ∀ x, .step i x ∉ es) (run : exec p.next s es = some s')
    (found : s.tasks[i]? = some t) : s'.tasks[i]? = some t := by
  induction es generalizing s with
  | nil => exact Option.some.inj run ▸ found
  | cons e es ih =>
    obtain ⟨m, first, rest⟩ := exec_cons_some.mp run
    refine ih (fun x later => apart x (List.mem_cons_of_mem e later)) rest ?_
    rcases next_cases first with ⟨a, rfl, rfl⟩ | ⟨j, x, u, g, u', rfl, _, _, rfl⟩
    · rwa [List.getElem?_append_left (List.getElem?_eq_some_iff.mp found).1]
    · have other : j ≠ i := by
        rintro rfl
        exact apart x List.mem_cons_self
      rwa [List.getElem?_set_ne other]

theorem set_all_own {R : T → Prop} {ts : List T} {i : Nat} {t u : T} (found : ts[i]? = some t)
    (all : ∀ v ∈ ts.set i u, R v) : R u := by
  refine all u (List.mem_of_getElem? (i := i) ?_)
  rw [List.getElem?_set_self (List.getElem?_eq_some_iff.mp found).1]

theorem set_all_others {R : T → Prop} {ts : List T} {i : Nat} {u : T}
    (all : ∀ v ∈ ts.set i u, R v) : ∀ (j : Nat) v, j ≠ i → ts[j]? = some v → R v := by
  intro j v other old
  refine all v (List.mem_of_getElem? (i := j) ?_)
  rwa [List.getElem?_set_ne fun eq => other eq.symm]

theorem set_all {R : T → Prop} {ts : List T} {i : Nat} {u : T} (own : R u)
    (others : ∀ (j : Nat) v, j ≠ i → ts[j]? = some v → R v) : ∀ v ∈ ts.set i u, R v := by
  intro v member
  obtain ⟨j, atJ⟩ := List.mem_iff_getElem?.mp member
  rcases getElem?_set_cases atJ with ⟨_, rfl⟩ | ⟨other, old⟩
  · exact own
  · exact others j v other old

theorem countP_set {kind : T → Bool} {ts : List T} {i : Nat} {t t' : T} (found : ts[i]? = some t) :
    (ts.set i t').countP kind + (if kind t then 1 else 0) =
      ts.countP kind + if kind t' then 1 else 0 := by
  obtain ⟨inside, rfl⟩ := List.getElem?_eq_some_iff.mp found
  rw [List.countP_set inside]
  have counted : kind ts[i] → 0 < ts.countP kind := fun holds =>
    List.countP_pos_iff.mpr ⟨ts[i], List.getElem_mem inside, holds⟩
  split_ifs <;> simp_all

/-- An invariant of the shared state with one invariant for every task. -/
structure Holds (shared : G → Prop) (task : Nat → G → T → Prop) (s : System G T) : Prop where
  shared : shared s.shared
  task : ∀ i t, s.tasks[i]? = some t → task i s.shared t

/-- A task's invariant has to survive the steps of the other tasks: each step
    proves its own part (`acts`) and leaves everyone else's alone (`frame`).
    The calls that spawn tasks may be limited to those in `calls`. -/
theorem holds_next {I : G → Prop} {L : Nat → G → T → Prop} {calls : A → Prop}
    (spawned : ∀ i g a, calls a → I g → I (p.spawn g a).1 ∧ L i (p.spawn g a).1 (p.spawn g a).2)
    (beside : ∀ i g a t, calls a → I g → L i g t → L i (p.spawn g a).1 t)
    (acts : ∀ i g t e g' t', I g → L i g t → p.step g t e = some (g', t') → I g' ∧ L i g' t')
    (frame : ∀ i j g t e g' t' u, I g → L i g t → L j g u → p.step g t e = some (g', t') →
      L j g' u)
    {s s' : System G T} {e : Event A E} (called : ∀ a, e = .spawn a → calls a)
    (before : Holds I L s) (h : p.next s e = some s') : Holds I L s' := by
  rcases next_cases h with ⟨a, rfl, rfl⟩ | ⟨i, x, t, g, t', rfl, found, moved, rfl⟩
  · have call := called a rfl
    refine ⟨(spawned 0 s.shared a call before.shared).1, fun j u at_j => ?_⟩
    rcases getElem?_append_one at_j with old | ⟨rfl, rfl⟩
    · exact beside j _ a u call before.shared (before.task j u old)
    · exact (spawned _ s.shared a call before.shared).2
  · have own := acts i _ t x g t' before.shared (before.task i t found) moved
    refine ⟨own.1, fun j u at_j => ?_⟩
    rcases getElem?_set_cases at_j with ⟨rfl, rfl⟩ | ⟨_, old⟩
    · exact own.2
    · exact frame i j _ t x g t' u before.shared (before.task i t found) (before.task j u old) moved

theorem holds_exec {I : G → Prop} {L : Nat → G → T → Prop} {calls : A → Prop}
    (spawned : ∀ i g a, calls a → I g → I (p.spawn g a).1 ∧ L i (p.spawn g a).1 (p.spawn g a).2)
    (beside : ∀ i g a t, calls a → I g → L i g t → L i (p.spawn g a).1 t)
    (acts : ∀ i g t e g' t', I g → L i g t → p.step g t e = some (g', t') → I g' ∧ L i g' t')
    (frame : ∀ i j g t e g' t' u, I g → L i g t → L j g u → p.step g t e = some (g', t') →
      L j g' u)
    {s s' : System G T} {es : List (Event A E)} (called : ∀ a, .spawn a ∈ es → calls a)
    (run : exec p.next s es = some s') (initial : Holds I L s) : Holds I L s' := by
  induction es generalizing s with
  | nil => exact Option.some.inj run ▸ initial
  | cons e es ih =>
    obtain ⟨t, first, rest⟩ := exec_cons_some.mp run
    have now : ∀ a, e = .spawn a → calls a := fun a eq => called a (by simp [eq])
    exact ih (fun a later => called a (List.mem_cons_of_mem e later)) rest
      (holds_next spawned beside acts frame now initial first)

end Tasks

end ExecutableRuns
