import XdsControlPlane.ExecutableRuns

/-!
Tasks that only read. A task is silent if none of its steps changes the shared
state. Leaving out all the steps of some silent tasks leaves a run, and in it the
shared state and every other task come out as they did before: what a silent task
does is seen by nobody else.
-/
namespace SilentTasks
open ExecutableRuns

variable {G T A E : Type}

/-- The tasks of a kind that never changes, and whose steps leave the shared state alone. -/
structure Silent (p : Program G T A E) where
  silent : T → Prop
  kind : ∀ g t x g' t', p.step g t x = some (g', t') → (silent t' ↔ silent t)
  shared : ∀ g t x g' t', silent t → p.step g t x = some (g', t') → g' = g

def heard (muted : Nat → Bool) : Event A E → Bool
  | .spawn _ => true
  | .step j _ => !muted j

structure Alike (muted : Nat → Bool) (s u : System G T) : Prop where
  shared : u.shared = s.shared
  length : u.tasks.length = s.tasks.length
  tasks : ∀ i, ¬ muted i → u.tasks[i]? = s.tasks[i]?

variable {p : Program G T A E} (S : Silent p) {muted : Nat → Bool} {s s' u : System G T}

theorem alike_refl (muted : Nat → Bool) (s : System G T) : Alike muted s s :=
  ⟨rfl, rfl, fun _ _ => rfl⟩

theorem kind_kept {es : List (Event A E)} (run : exec p.next s es = some s') {j : Nat} {t : T}
    (found : s.tasks[j]? = some t) : ∃ t', s'.tasks[j]? = some t' ∧ (S.silent t' ↔ S.silent t) := by
  induction es generalizing s t with
  | nil =>
    cases Option.some.inj run
    exact ⟨t, found, Iff.rfl⟩
  | cons e es ih =>
    obtain ⟨m, first, rest⟩ := exec_cons_some.mp run
    rcases next_cases first with ⟨a, rfl, rfl⟩ | ⟨i, x, v, g, v', rfl, found', moved, rfl⟩
    · apply ih rest
      rwa [List.getElem?_append_left (List.getElem?_eq_some_iff.mp found).1]
    · by_cases same : i = j
      · subst same
        cases found.symm.trans found'
        obtain ⟨t', last, kind⟩ := ih rest
          (List.getElem?_set_self (List.getElem?_eq_some_iff.mp found).1)
        exact ⟨t', last, kind.trans (S.kind s.shared t x g v' moved)⟩
      · exact ih rest ((List.getElem?_set_ne same).trans found)

theorem alike_spawn (alike : Alike muted s u) (a : A) :
    ∃ u', p.next u (.spawn a) = some u' ∧
      Alike muted ⟨(p.spawn s.shared a).1, s.tasks ++ [(p.spawn s.shared a).2]⟩ u' := by
  refine ⟨_, rfl, ?_⟩
  rw [alike.shared]
  constructor
  case shared => rfl
  case length => simp only [List.length_append, alike.length]
  case tasks =>
    intro i heard
    simp only [List.getElem?_append, alike.length, alike.tasks i heard]

theorem alike_step (alike : Alike muted s u) {i : Nat} (heard : ¬ muted i) {x : E} {t t' : T} {g : G}
    (found : s.tasks[i]? = some t) (moved : p.step s.shared t x = some (g, t')) :
    ∃ u', p.next u (.step i x) = some u' ∧ Alike muted ⟨g, s.tasks.set i t'⟩ u' := by
  have here := (alike.tasks i heard).trans found
  refine ⟨_, next_step here (alike.shared ▸ moved), rfl, ?_, ?_⟩
  · simp only [List.length_set, alike.length]
  · intro j heardJ
    simp only [List.getElem?_set, alike.length, alike.tasks j heardJ]

theorem alike_muted (alike : Alike muted s u) {i : Nat} (isMuted : muted i) {t' : T} :
    Alike muted ⟨s.shared, s.tasks.set i t'⟩ u := by
  refine ⟨alike.shared, by simp only [alike.length, List.length_set], ?_⟩
  intro j heardJ
  have other : i ≠ j := by
    rintro rfl
    exact heardJ isMuted
  rw [alike.tasks j heardJ, List.getElem?_set_ne other]

/-- The run without the muted tasks' steps is a run, to a state that differs in these
    tasks only, if all of them are silent. -/
theorem muted_run {es : List (Event A E)} (run : exec p.next s es = some s')
    (quiet : ∀ j t, muted j → s'.tasks[j]? = some t → S.silent t) (alike : Alike muted s u) :
    ∃ u', exec p.next u (es.filter (heard muted)) = some u' ∧ Alike muted s' u' := by
  induction es generalizing s u with
  | nil =>
    cases Option.some.inj run
    exact ⟨u, rfl, alike⟩
  | cons e es ih =>
    obtain ⟨m, first, rest⟩ := exec_cons_some.mp run
    rcases next_cases first with ⟨a, rfl, rfl⟩ | ⟨i, x, t, g, t', rfl, found, moved, rfl⟩
    · obtain ⟨v, first', alike'⟩ := alike_spawn (p := p) alike a
      obtain ⟨u', rest', last⟩ := ih rest alike'
      exact ⟨u', exec_cons_some.mpr ⟨v, first', rest'⟩, last⟩
    · by_cases isMuted : muted i
      · have here : (s.tasks.set i t')[i]? = some t' :=
          List.getElem?_set_self (List.getElem?_eq_some_iff.mp found).1
        obtain ⟨last, atEnd, kind⟩ := kind_kept S rest here
        have isSilent : S.silent t :=
          (S.kind _ _ _ _ _ moved).mp (kind.mp (quiet i last isMuted atEnd))
        cases S.shared _ _ _ _ _ isSilent moved
        obtain ⟨u', rest', alike'⟩ := ih rest (alike_muted alike isMuted)
        refine ⟨u', ?_, alike'⟩
        rwa [List.filter_cons_of_neg (by simp [heard, isMuted])]
      · obtain ⟨v, first', alike'⟩ := alike_step alike isMuted found moved
        obtain ⟨u', rest', last⟩ := ih rest alike'
        refine ⟨u', ?_, last⟩
        rw [List.filter_cons_of_pos (by simp [heard, isMuted])]
        exact exec_cons_some.mpr ⟨v, first', rest'⟩

end SilentTasks
