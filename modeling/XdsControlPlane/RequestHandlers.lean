import XdsControlPlane.NumberedCalls

/-!
Request handlers in front of a program. A handler makes one call into the program,
runs it to its end and replies; or it reads the shared state twice and replies; or it
refuses. Other tasks run beside the handlers. The front is a program again. What it
does to the shared state the program alone can do, each reply tells what was shown at
a moment while its request was under way, and the numbers that calls draw respect the
order in which requests come after replies.
-/
namespace RequestHandlers
open ExecutableRuns SharedCells NumberedCalls

/-- What is done with a request. A call comes with the number that it is going to draw, and
    with its reply once there is one. -/
inductive Plan (G T A N R : Type) where
  | call : A → (G → N) → (N → T → Option R) → Plan G T A N R
  | read : (G → N) → (N → G → R) → Plan G T A N R
  | refuse : R → Plan G T A N R

structure Front {G T A E : Type} (p : Program G T A E) (Q B N R : Type) where
  plan : Q → Plan G T A N R
  outside : B → A
  succeeded : T → Bool

/-- A reply comes with the number of the call that has succeeded, or what was read first. -/
inductive Handler (Q T N R : Type) where
  | arrived : Q → Handler Q T N R
  | calling : Q → N → T → Handler Q T N R
  | reading : Q → N → Handler Q T N R
  | answered : Q → Option N → R → Handler Q T N R

inductive FrontTask (Q T N R : Type) where
  | handler : Handler Q T N R → FrontTask Q T N R
  | beside : T → FrontTask Q T N R

inductive FrontCall (Q B : Type) where
  | request : Q → FrontCall Q B
  | beside : B → FrontCall Q B

inductive FrontAct (E : Type) where
  | handle : FrontAct E
  | inner : E → FrontAct E

section Fronts
variable {G T A E Q B N R : Type} {p : Program G T A E}

def Front.spawn (F : Front p Q B N R) (g : G) : FrontCall Q B → G × FrontTask Q T N R
  | .request q => (g, .handler (.arrived q))
  | .beside b => ((p.spawn g (F.outside b)).1, .beside (p.spawn g (F.outside b)).2)

def Front.handle (F : Front p Q B N R) (g : G) : Handler Q T N R → Option (G × Handler Q T N R)
  | .arrived q => match F.plan q with
    | .call a promised _ => some ((p.spawn g a).1, .calling q (promised g) (p.spawn g a).2)
    | .read first _ => some (g, .reading q (first g))
    | .refuse r => some (g, .answered q none r)
  | .calling q n t => match F.plan q with
    | .call _ _ reply => (reply n t).map fun r =>
        (g, .answered q (if F.succeeded t then some n else none) r)
    | _ => none
  | .reading q n => match F.plan q with
    | .read _ reply => some (g, .answered q (some n) (reply n g))
    | _ => none
  | .answered _ _ _ => none

def Front.step (F : Front p Q B N R) (g : G) :
    FrontTask Q T N R → FrontAct E → Option (G × FrontTask Q T N R)
  | .handler h, .handle => (F.handle g h).map fun r => (r.1, .handler r.2)
  | .handler (.calling q n t), .inner x =>
    (p.step g t x).map fun r => (r.1, .handler (.calling q n r.2))
  | .beside t, .inner x => (p.step g t x).map fun r => (r.1, .beside r.2)
  | _, _ => none

def Front.program (F : Front p Q B N R) :
    Program G (FrontTask Q T N R) (FrontCall Q B) (FrontAct E) :=
  ⟨F.spawn, F.step⟩

inductive FrontStep (F : Front p Q B N R) (g : G) :
    FrontTask Q T N R → FrontAct E → G → FrontTask Q T N R → Prop where
  | call (q : Q) (a : A) (promised : G → N) (reply : N → T → Option R)
      (planned : F.plan q = .call a promised reply) :
      FrontStep F g (.handler (.arrived q)) .handle (p.spawn g a).1
        (.handler (.calling q (promised g) (p.spawn g a).2))
  | look (q : Q) (first : G → N) (reply : N → G → R) (planned : F.plan q = .read first reply) :
      FrontStep F g (.handler (.arrived q)) .handle g (.handler (.reading q (first g)))
  | refuse (q : Q) (r : R) (planned : F.plan q = .refuse r) :
      FrontStep F g (.handler (.arrived q)) .handle g (.handler (.answered q none r))
  | finish (q : Q) (n : N) (t : T) (a : A) (promised : G → N) (reply : N → T → Option R) (r : R)
      (planned : F.plan q = .call a promised reply) (replies : reply n t = some r) :
      FrontStep F g (.handler (.calling q n t)) .handle g
        (.handler (.answered q (if F.succeeded t then some n else none) r))
  | tell (q : Q) (n : N) (first : G → N) (reply : N → G → R)
      (planned : F.plan q = .read first reply) :
      FrontStep F g (.handler (.reading q n)) .handle g (.handler (.answered q (some n) (reply n g)))
  | work (q : Q) (n : N) (t : T) (x : E) (g' : G) (t' : T) (moved : p.step g t x = some (g', t')) :
      FrontStep F g (.handler (.calling q n t)) (.inner x) g' (.handler (.calling q n t'))
  | beside (t : T) (x : E) (g' : G) (t' : T) (moved : p.step g t x = some (g', t')) :
      FrontStep F g (.beside t) (.inner x) g' (.beside t')

variable {F : Front p Q B N R} {g g' : G}

theorem handle_step {h h' : Handler Q T N R} (moved : F.handle g h = some (g', h')) :
    FrontStep F g (.handler h) .handle g' (.handler h') := by
  cases h with
  | arrived q =>
    cases planned : F.plan q with
    | call a promised reply =>
      simp only [Front.handle, planned] at moved
      cases moved
      exact .call q a promised reply planned
    | read first reply =>
      simp only [Front.handle, planned] at moved
      cases moved
      exact .look q first reply planned
    | refuse r =>
      simp only [Front.handle, planned] at moved
      cases moved
      exact .refuse q r planned
  | calling q n t =>
    cases planned : F.plan q with
    | call a promised reply =>
      simp only [Front.handle, planned] at moved
      obtain ⟨r, replies, eq⟩ := Option.map_eq_some_iff.mp moved
      cases eq
      exact .finish q n t a promised reply r planned replies
    | _ =>
      simp [Front.handle, planned] at moved
  | reading q n =>
    cases planned : F.plan q with
    | read first reply =>
      simp only [Front.handle, planned] at moved
      cases moved
      exact .tell q n first reply planned
    | _ =>
      simp [Front.handle, planned] at moved
  | answered q n r => simp [Front.handle] at moved

theorem front_step {t t' : FrontTask Q T N R} {x : FrontAct E}
    (moved : F.program.step g t x = some (g', t')) : FrontStep F g t x g' t' := by
  cases x with
  | handle =>
    cases t with
    | handler h =>
      obtain ⟨⟨g₁, h'⟩, handled, eq⟩ := Option.map_eq_some_iff.mp moved
      cases eq
      exact handle_step handled
    | beside t => contradiction
  | inner x =>
    cases t with
    | handler h =>
      cases h with
      | calling q n t =>
        obtain ⟨⟨g₁, t₁⟩, inner, eq⟩ := Option.map_eq_some_iff.mp moved
        cases eq
        exact .work q n t x g₁ t₁ inner
      | _ => contradiction
    | beside t =>
      obtain ⟨⟨g₁, t₁⟩, inner, eq⟩ := Option.map_eq_some_iff.mp moved
      cases eq
      exact .beside t x g₁ t₁ inner

end Fronts

/- The program behind the front -/

section Refinement
variable {G T A E Q B N R : Type} {p : Program G T A E} {F : Front p Q B N R}
variable {st st' : System G (FrontTask Q T N R)} {st₀ : System G T} {place : Nat → Nat}

def innerTask : FrontTask Q T N R → Option T
  | .handler (.calling _ _ t) => some t
  | .handler _ => none
  | .beside t => some t

def waiting : FrontTask Q T N R → Bool
  | .handler (.arrived _) => true
  | _ => false

/-- `place` says where the program has the front's tasks. -/
structure Projects (place : Nat → Nat) (st : System G (FrontTask Q T N R)) (st₀ : System G T) :
    Prop where
  shared : st₀.shared = st.shared
  tasks : ∀ (i : Nat) u t, st.tasks[i]? = some u → innerTask u = some t →
    st₀.tasks[place i]? = some t
  apart : ∀ (i j : Nat) u v t t', st.tasks[i]? = some u → st.tasks[j]? = some v →
    innerTask u = some t → innerTask v = some t' → place i = place j → i = j
  few : st₀.tasks.length + st.tasks.countP waiting ≤ st.tasks.length

theorem waiting_set {ts : List (FrontTask Q T N R)} {i : Nat} {u : FrontTask Q T N R}
    (found : ts[i]? = some u) {u' : FrontTask Q T N R} (begun : waiting u' = false) :
    (ts.set i u').countP waiting + (if waiting u then 1 else 0) = ts.countP waiting := by
  have count : (ts.set i u').countP waiting + _ = _ := countP_set found
  rwa [begun] at count

theorem projects_spawn (projects : Projects place st st₀) (ts : List (FrontTask Q T N R)) {a : A}
    {i : Nat} {u : FrontTask Q T N R} (runs : innerTask u = some (p.spawn st.shared a).2)
    (others : ∀ (j : Nat) v, ts[j]? = some v → (j = i ∧ v = u) ∨ (j ≠ i ∧ st.tasks[j]? = some v))
    (few : st₀.tasks.length + 1 + ts.countP waiting ≤ ts.length) :
    ∃ place' st₁, p.next st₀ (.spawn a) = some st₁ ∧
      Projects place' ⟨(p.spawn st.shared a).1, ts⟩ st₁ := by
  have inside : ∀ (j : Nat) v t, st.tasks[j]? = some v → innerTask v = some t →
      place j < st₀.tasks.length := fun j v t atJ inner =>
    (List.getElem?_eq_some_iff.mp (projects.tasks j v t atJ inner)).1
  have old : ∀ j, j ≠ i → Function.update place i st₀.tasks.length j = place j :=
    fun j other => Function.update_of_ne other _ place
  have new : Function.update place i st₀.tasks.length i = st₀.tasks.length :=
    Function.update_self i _ place
  refine ⟨Function.update place i st₀.tasks.length, _, rfl, ?_, ?_, ?_, ?_⟩
  · rw [projects.shared]
  · intro j v t atJ inner
    rcases others j v atJ with ⟨rfl, rfl⟩ | ⟨other, before⟩
    · cases runs.symm.trans inner
      rw [new, List.getElem?_concat_length, projects.shared]
    · rw [old j other, List.getElem?_append_left (inside j v t before inner)]
      exact projects.tasks j v t before inner
  · intro j k v w t t' atJ atK innerJ innerK same
    rcases others j v atJ with ⟨rfl, rfl⟩ | ⟨otherJ, beforeJ⟩
    · rcases others k w atK with ⟨rfl, rfl⟩ | ⟨otherK, beforeK⟩
      · rfl
      · have := inside k w t' beforeK innerK
        rw [new, old k otherK] at same
        omega
    · rcases others k w atK with ⟨rfl, rfl⟩ | ⟨otherK, beforeK⟩
      · have := inside j v t beforeJ innerJ
        rw [new, old j otherJ] at same
        omega
      · rw [old j otherJ, old k otherK] at same
        exact projects.apart j k v w t t' beforeJ beforeK innerJ innerK same
  · rw [List.length_append]
    exact few

theorem projects_still (projects : Projects place st st₀) {ts : List (FrontTask Q T N R)}
    (others : ∀ (j : Nat) v t, ts[j]? = some v → innerTask v = some t → st.tasks[j]? = some v)
    (few : st₀.tasks.length + ts.countP waiting ≤ ts.length) :
    Projects place ⟨st.shared, ts⟩ st₀ := by
  constructor
  case shared => exact projects.shared
  case tasks => exact fun j v t atJ inner => projects.tasks j v t (others j v t atJ inner) inner
  case apart =>
    intro j k v w t t' atJ atK innerJ innerK same
    exact projects.apart j k v w t t' (others j v t atJ innerJ) (others k w t' atK innerK)
      innerJ innerK same
  case few => exact few

theorem inner_begun {u : FrontTask Q T N R} {t : T} (runs : innerTask u = some t) :
    waiting u = false := by
  unfold waiting
  split
  · cases runs
  · rfl

theorem projects_step (projects : Projects place st st₀) {i : Nat} {u : FrontTask Q T N R}
    (u' : FrontTask Q T N R) {t t' : T} {x : E} {g : G} (found : st.tasks[i]? = some u)
    (runs : innerTask u = some t) (moved : p.step st.shared t x = some (g, t'))
    (runs' : innerTask u' = some t') :
    ∃ st₁, p.next st₀ (.step (place i) x) = some st₁ ∧ Projects place ⟨g, st.tasks.set i u'⟩ st₁ := by
  have here := projects.tasks i u t found runs
  have inside := (List.getElem?_eq_some_iff.mp here).1
  refine ⟨_, next_step here (projects.shared ▸ moved), rfl, ?_, ?_, ?_⟩
  · intro j v w atJ inner
    rcases getElem?_set_cases atJ with ⟨rfl, rfl⟩ | ⟨other, old⟩
    · cases runs'.symm.trans inner
      exact List.getElem?_set_self inside
    · have apart : place i ≠ place j := fun same =>
        other (projects.apart i j u v t w found old runs inner same).symm
      rw [List.getElem?_set_ne apart]
      exact projects.tasks j v w old inner
  · intro j k v w s s' atJ atK innerJ innerK same
    have before : ∀ (l : Nat) y z, (st.tasks.set i u')[l]? = some y → innerTask y = some z →
        ∃ y' z', st.tasks[l]? = some y' ∧ innerTask y' = some z' := by
      intro l y z atL inner
      rcases getElem?_set_cases atL with ⟨rfl, rfl⟩ | ⟨_, old⟩
      · exact ⟨u, t, found, runs⟩
      · exact ⟨y, z, old, inner⟩
    obtain ⟨v', s₁, oldJ, inner₁⟩ := before j v s atJ innerJ
    obtain ⟨w', s₂, oldK, inner₂⟩ := before k w s' atK innerK
    exact projects.apart j k v' w' s₁ s₂ oldJ oldK inner₁ inner₂ same
  · have count := waiting_set found (inner_begun runs')
    rw [inner_begun runs, if_neg Bool.false_ne_true] at count
    have few := projects.few
    change _ + (st.tasks.set i u').countP waiting ≤ (st.tasks.set i u').length
    rw [List.length_set, List.length_set]
    omega

theorem projects_next {e : Event (FrontCall Q B) (FrontAct E)} (projects : Projects place st st₀)
    (h : F.program.next st e = some st') :
    ∃ place' st₁ es₀, exec p.next st₀ es₀ = some st₁ ∧ Projects place' st' st₁ := by
  have few := projects.few
  rcases next_cases h with ⟨call, rfl, rfl⟩ | ⟨i, x, u, g, u', rfl, found, moved, rfl⟩
  · cases call with
    | request q =>
      refine ⟨place, st₀, [], rfl, projects_still projects ?_ ?_⟩
      · intro j v t atJ inner
        rcases getElem?_append_one atJ with old | ⟨_, rfl⟩
        · exact old
        · cases inner
      · rw [List.countP_append, List.length_append, List.countP_singleton, List.length_singleton]
        split_ifs <;> omega
    | beside b =>
      obtain ⟨place', st₁, next, after⟩ := projects_spawn projects
        (st.tasks ++ [.beside (p.spawn st.shared (F.outside b)).2]) rfl (fun j v atJ => by
          rcases getElem?_append_one atJ with old | new
          · exact Or.inr ⟨Nat.ne_of_lt (List.getElem?_eq_some_iff.mp old).1, old⟩
          · exact Or.inl new) (by simp [waiting]; omega)
      exact ⟨place', st₁, [_], exec_cons_some.mpr ⟨st₁, next, rfl⟩, after⟩
  · have quiet : ∀ {h : Handler Q T N R}, u' = .handler h → innerTask u' = none → waiting u' = false →
        ∃ place' st₁ es₀, exec p.next st₀ es₀ = some st₁ ∧
          Projects place' ⟨st.shared, st.tasks.set i u'⟩ st₁ := by
      intro h isHandler idle begun
      refine ⟨place, st₀, [], rfl, projects_still projects ?_ ?_⟩
      · intro j v t atJ inner
        rcases getElem?_set_cases atJ with ⟨_, rfl⟩ | ⟨_, old⟩
        · simp [idle] at inner
        · exact old
      · have count := waiting_set found begun
        rw [List.length_set]
        omega
    cases front_step moved with
    | call q a promised reply planned =>
      have begun : ∀ {u'}, waiting u' = false →
          st₀.tasks.length + 1 + (st.tasks.set i u').countP waiting ≤ (st.tasks.set i u').length := by
        intro u' begun
        have count := waiting_set found begun
        rw [waiting, if_pos rfl] at count
        rw [List.length_set]
        omega
      obtain ⟨place', st₁, next, after⟩ := projects_spawn projects
        (st.tasks.set i (.handler (.calling q (promised st.shared) (p.spawn st.shared a).2)))
        rfl (fun j v atJ => getElem?_set_cases atJ) (begun rfl)
      exact ⟨place', st₁, [_], exec_cons_some.mpr ⟨st₁, next, rfl⟩, after⟩
    | look q first reply planned => exact quiet rfl rfl rfl
    | refuse q r planned => exact quiet rfl rfl rfl
    | finish q n t a promised reply r planned replies => exact quiet rfl rfl rfl
    | tell q n first reply planned => exact quiet rfl rfl rfl
    | work q n t y g' t' inner =>
      obtain ⟨st₁, next, after⟩ :=
        projects_step projects (.handler (.calling q n t')) found rfl inner rfl
      exact ⟨place, st₁, [_], exec_cons_some.mpr ⟨st₁, next, rfl⟩, after⟩
    | beside t y g' t' inner =>
      obtain ⟨st₁, next, after⟩ := projects_step projects (.beside t') found rfl inner rfl
      exact ⟨place, st₁, [_], exec_cons_some.mpr ⟨st₁, next, rfl⟩, after⟩

/-- What the front does to the shared state the program alone can do, with no more tasks. -/
theorem front_refines {g : G} {es : List (Event (FrontCall Q B) (FrontAct E))}
    (run : exec F.program.next ⟨g, []⟩ es = some st) :
    ∃ es₀ st₀, exec p.next ⟨g, []⟩ es₀ = some st₀ ∧ st₀.shared = st.shared ∧
      st₀.tasks.length ≤ st.tasks.length := by
  have reached := exec_invariant (I := fun st => ∃ place st₀ es₀,
      exec p.next ⟨g, []⟩ es₀ = some st₀ ∧ Projects place st st₀) ?_ run
      ⟨id, ⟨g, []⟩, [], rfl, rfl, by simp, by simp, by simp⟩
  · obtain ⟨_, st₀, es₀, run₀, projects⟩ := reached
    exact ⟨es₀, st₀, run₀, projects.shared, Nat.le_trans (Nat.le_add_right _ _) projects.few⟩
  · rintro s e t ⟨place, st₀, es₀, run₀, projects⟩ h
    obtain ⟨place', st₁, fs, more, after⟩ := projects_next projects h
    exact ⟨place', st₁, es₀ ++ fs, exec_append_some.mpr ⟨st₀, run₀, more⟩, after⟩

end Refinement

/- What replies tell -/

section Moments
variable {G T A E Q B N R : Type} {p : Program G T A E} (F : Front p Q B N R)

abbrev Front.State : Front p Q B N R → Type := fun _ => System G (FrontTask Q T N R)
abbrev Front.Events : Front p Q B N R → Type := fun _ => List (Event (FrontCall Q B) (FrontAct E))

def underWay : FrontTask Q T N R → Bool
  | .handler (.answered _ _ _) => false
  | .handler _ => true
  | .beside _ => false

/-- The request of handler `k` has come and is not answered. -/
def UnderWay (st : System G (FrontTask Q T N R)) (k : Nat) : Prop :=
  ∃ u, st.tasks[k]? = some u ∧ underWay u = true

/-- The run has come to `st`, and since a moment at which request `k` was under way and
    the shared state was `g`. -/
def Front.Since (st₀ : F.State) (es : F.Events) (k : Nat) (g : G) (st : F.State) : Prop :=
  ∃ es₁ es₂ mid, es = es₁ ++ es₂ ∧ exec F.program.next st₀ es₁ = some mid ∧
    exec F.program.next mid es₂ = some st ∧ UnderWay mid k ∧ mid.shared = g

/-- While request `k` was under way the shared state was `g` at one moment of the run, and
    `g'` at that one or at a later one. -/
def Front.During (st₀ : F.State) (es : F.Events) (k : Nat) (g g' : G) : Prop :=
  ∃ es₁ es₂ st, es = es₁ ++ es₂ ∧ F.Since st₀ es₁ k g st ∧ UnderWay st k ∧ st.shared = g'

/-- The shared state shows one thing, which calls put there and reads look at first. A call
    carries the number it was promised until it shows it, or gives up. -/
structure Showing where
  shown : G → N
  carries : T → Option N
  reads : ∀ q first reply, F.plan q = .read first reply → first = shown
  begins : ∀ q a promised reply g, F.plan q = .call a promised reply →
    F.succeeded (p.spawn g a).2 = false ∧ carries (p.spawn g a).2 = some (promised g)
  stepped : ∀ g t x g' t', p.step g t x = some (g', t') → F.succeeded t = false ∧
    ((F.succeeded t' = false ∧ (carries t' = carries t ∨ carries t' = none)) ∨
      (F.succeeded t' = true ∧ carries t = some (shown g')))

variable {F}

/-- Where the reply to request `k` comes from: a number is drawn at one moment, and what a call
    that succeeds shows is shown at a later one. -/
inductive Explained (S : Showing F) (st₀ : F.State) (es : F.Events) (k : Nat) :
    Q → Option N → R → Prop where
  | call (q : Q) (a : A) (promised : G → N) (reply : N → T → Option R) (g g' : G) (t : T) (r : R)
      (planned : F.plan q = .call a promised reply) (replies : reply (promised g) t = some r)
      (moments : F.During st₀ es k g g') (shows : F.succeeded t = true → S.shown g' = promised g) :
      Explained S st₀ es k q (if F.succeeded t then some (promised g) else none) r
  | read (q : Q) (first : G → N) (reply : N → G → R) (g g' : G)
      (planned : F.plan q = .read first reply) (moments : F.During st₀ es k g g') :
      Explained S st₀ es k q (some (S.shown g)) (reply (S.shown g) g')
  | refuse (q : Q) (r : R) (planned : F.plan q = .refuse r) : Explained S st₀ es k q none r

def Underway (S : Showing F) (st₀ : F.State) (es : F.Events) (st : F.State) (k : Nat) (g : G)
    (n : N) (t : T) : Prop :=
  if F.succeeded t then ∃ g', F.During st₀ es k g g' ∧ S.shown g' = n
  else F.Since st₀ es k g st ∧ ∀ m, S.carries t = some m → m = n

def Told (S : Showing F) (st₀ : F.State) (es : F.Events) (st : F.State) (k : Nat) :
    Handler Q T N R → Prop
  | .arrived _ => True
  | .calling q n t => ∃ a promised reply g, F.plan q = .call a promised reply ∧ n = promised g ∧
      Underway S st₀ es st k g n t
  | .reading _ n => ∃ g, F.Since st₀ es k g st ∧ S.shown g = n
  | .answered q n r => Explained S st₀ es k q n r

variable {S : Showing F} {st₀ st st' : F.State} {es : F.Events} {k : Nat} {g g' : G}

theorem during_later (during : F.During st₀ es k g g') (fs : F.Events) :
    F.During st₀ (es ++ fs) k g g' := by
  obtain ⟨es₁, es₂, mid, rfl, rest⟩ := during
  exact ⟨es₁, es₂ ++ fs, mid, List.append_assoc es₁ es₂ fs, rest⟩

theorem since_now (run : exec F.program.next st₀ es = some st) (open_ : UnderWay st k) :
    F.Since st₀ es k st.shared st :=
  ⟨es, [], st, (List.append_nil es).symm, run, rfl, open_, rfl⟩

theorem since_next {e : Event (FrontCall Q B) (FrontAct E)} (since : F.Since st₀ es k g st)
    (h : F.program.next st e = some st') : F.Since st₀ (es ++ [e]) k g st' := by
  obtain ⟨es₁, es₂, mid, rfl, run, more, rest⟩ := since
  refine ⟨es₁, es₂ ++ [e], mid, List.append_assoc es₁ es₂ [e], run, ?_, rest⟩
  exact exec_append_some.mpr ⟨st, more, exec_cons_some.mpr ⟨st', h, rfl⟩⟩

theorem since_during (since : F.Since st₀ es k g st) (open_ : UnderWay st k) :
    F.During st₀ es k g st.shared :=
  ⟨es, [], st, (List.append_nil es).symm, since, open_, rfl⟩

theorem underway_later {e : Event (FrontCall Q B) (FrontAct E)} {n : N} {t : T}
    (underway : Underway S st₀ es st k g n t) (next : F.program.next st e = some st') :
    Underway S st₀ (es ++ [e]) st' k g n t := by
  by_cases succeeded : F.succeeded t = true
  · rw [Underway, if_pos succeeded] at underway ⊢
    obtain ⟨g', during, same⟩ := underway
    exact ⟨g', during_later during [e], same⟩
  · rw [Underway, if_neg succeeded] at underway ⊢
    exact ⟨since_next underway.1 next, underway.2⟩

theorem told_later {e : Event (FrontCall Q B) (FrontAct E)} {h : Handler Q T N R}
    (told : Told S st₀ es st k h) (next : F.program.next st e = some st') :
    Told S st₀ (es ++ [e]) st' k h := by
  cases h with
  | arrived q => trivial
  | calling q n t =>
    obtain ⟨a, promised, reply, g, planned, drew, underway⟩ := told
    exact ⟨a, promised, reply, g, planned, drew, underway_later underway next⟩
  | reading q n =>
    obtain ⟨g, since, same⟩ := told
    exact ⟨g, since_next since next, same⟩
  | answered q n r =>
    cases told with
    | call a promised reply g g' t r planned replies moments shows =>
      exact .call q a promised reply g g' t r planned replies (during_later moments [e]) shows
    | read first reply g g' planned moments =>
      exact .read q first reply g g' planned (during_later moments [e])
    | refuse r planned => exact .refuse q r planned

theorem told_step {e : Event (FrontCall Q B) (FrontAct E)} {h : Handler Q T N R}
    {u' : FrontTask Q T N R} {x : FrontAct E} (run : exec F.program.next st₀ es = some st)
    (next : F.program.next st e = some st') (found : st.tasks[k]? = some (.handler h))
    (found' : st'.tasks[k]? = some u') (told : Told S st₀ es st k h)
    (step : FrontStep F st.shared (.handler h) x st'.shared u') :
    ∃ h', u' = .handler h' ∧ Told S st₀ (es ++ [e]) st' k h' := by
  have run' : exec F.program.next st₀ (es ++ [e]) = some st' :=
    exec_append_some.mpr ⟨st, run, exec_cons_some.mpr ⟨st', next, rfl⟩⟩
  generalize shared' : st'.shared = g' at step
  cases step with
  | call q a promised reply planned =>
    obtain ⟨unfinished, carried⟩ := S.begins q a promised reply st.shared planned
    refine ⟨_, rfl, a, promised, reply, st.shared, planned, rfl, ?_⟩
    rw [Underway, unfinished, if_neg Bool.false_ne_true]
    refine ⟨since_next (since_now run ⟨_, found, rfl⟩) next, ?_⟩
    exact fun m carries => Option.some.inj (carries.symm.trans carried)
  | look q first reply planned =>
    refine ⟨_, rfl, st.shared, ?_, by rw [S.reads q first reply planned]⟩
    exact shared' ▸ since_now run' ⟨_, found', rfl⟩
  | refuse q r planned => exact ⟨_, rfl, .refuse q r planned⟩
  | finish q n t a promised reply r planned replies =>
    obtain ⟨b, _, _, g, planned', rfl, underway⟩ := told
    cases planned.symm.trans planned'
    refine ⟨_, rfl, ?_⟩
    by_cases succeeded : F.succeeded t = true
    · rw [Underway, if_pos succeeded] at underway
      obtain ⟨g', during, same⟩ := underway
      exact .call q a promised reply g g' t r planned replies (during_later during [e]) fun _ => same
    · rw [Underway, if_neg succeeded] at underway
      have during : F.During st₀ es k g st.shared := since_during underway.1 ⟨_, found, rfl⟩
      exact .call q a promised reply g st.shared t r planned replies (during_later during [e])
        fun did => absurd did succeeded
  | tell q n first reply planned =>
    obtain ⟨g, since, rfl⟩ := told
    have during : F.During st₀ es k g st.shared := since_during since ⟨_, found, rfl⟩
    exact ⟨_, rfl, .read q first reply g st.shared planned (during_later during [e])⟩
  | work q n t x g' t' moved =>
    obtain ⟨a, promised, reply, g, planned, drew, underway⟩ := told
    refine ⟨_, rfl, a, promised, reply, g, planned, drew, ?_⟩
    obtain ⟨unfinished, outcome⟩ := S.stepped _ t x g' t' moved
    rw [Underway, unfinished, if_neg Bool.false_ne_true] at underway
    obtain ⟨since, carrying⟩ := underway
    have since' := since_next since next
    rcases outcome with ⟨still, kept⟩ | ⟨succeeded, shown⟩
    · rw [Underway, still, if_neg Bool.false_ne_true]
      refine ⟨since', fun m carries => ?_⟩
      rcases kept with same | dropped
      · exact carrying m (same ▸ carries)
      · simp [dropped] at carries
    · rw [Underway, if_pos succeeded]
      have now : F.During st₀ (es ++ [e]) k g st'.shared := since_during since' ⟨_, found', rfl⟩
      exact ⟨g', shared' ▸ now, carrying _ shown⟩

theorem told_next {e : Event (FrontCall Q B) (FrontAct E)}
    (run : exec F.program.next st₀ es = some st)
    (before : ∀ (k : Nat) h, st.tasks[k]? = some (.handler h) → Told S st₀ es st k h)
    (next : F.program.next st e = some st') :
    ∀ (k : Nat) h, st'.tasks[k]? = some (.handler h) → Told S st₀ (es ++ [e]) st' k h := by
  intro k h found'
  rcases next_cases next with ⟨call, _, eq⟩ | ⟨i, x, u, g, u', _, found, moved, eq⟩
  · have tasks := congrArg System.tasks eq
    rcases getElem?_append_one (tasks ▸ found') with old | ⟨_, new⟩
    · exact told_later (before k h old) next
    · cases call with
      | request q =>
        cases new
        trivial
      | beside b => cases new
  · have tasks := congrArg System.tasks eq
    rcases getElem?_set_cases (tasks ▸ found') with ⟨rfl, same⟩ | ⟨_, old⟩
    · have step : FrontStep F st.shared u x st'.shared u' := by
        rw [congrArg System.shared eq]
        exact front_step moved
      cases u with
      | handler h₀ =>
        obtain ⟨h', isHandler, told⟩ :=
          told_step run next found (same ▸ found') (before k h₀ found) step
        cases same.trans isHandler
        exact told
      | beside t =>
        generalize st'.shared = g₁ at step
        cases step
        cases same
    · exact told_later (before k h old) next

theorem told_run (run : exec F.program.next st₀ es = some st) (bare : st₀.tasks = []) :
    ∀ (k : Nat) h, st.tasks[k]? = some (.handler h) → Told S st₀ es st k h := by
  induction es using List.reverseRecOn generalizing st with
  | nil =>
    cases Option.some.inj run
    simp [bare]
  | append_singleton es e ih =>
    obtain ⟨mid, before, last⟩ := exec_append_some.mp run
    obtain ⟨st', next, eq⟩ := exec_cons_some.mp last
    cases Option.some.inj eq
    exact told_next before (ih before) next

/-- Every reply tells what was shown at a moment while its request was under way. -/
theorem replies_explained (run : exec F.program.next st₀ es = some st) (bare : st₀.tasks = [])
    {q : Q} {n : Option N} {r : R} (found : st.tasks[k]? = some (.handler (.answered q n r))) :
    Explained S st₀ es k q n r :=
  told_run run bare k _ found

theorem tasks_grow_run (run : exec F.program.next st es = some st') :
    st.tasks.length ≤ st'.tasks.length :=
  exec_invariant (I := fun s => st.tasks.length ≤ s.tasks.length)
    (fun _ _ _ before h => Nat.le_trans before (tasks_grow h)) run (Nat.le_refl _)

theorem during_split (run : exec F.program.next st₀ es = some st') (during : F.During st₀ es k g g') :
    ∃ es₁ es₂ mid st, exec F.program.next st₀ es₁ = some mid ∧
      exec F.program.next mid es₂ = some st ∧ mid.shared = g ∧ st.shared = g' ∧
      st.tasks.length ≤ st'.tasks.length := by
  obtain ⟨_, es₃, st, rfl, ⟨es₁, es₂, mid, rfl, first, second, _, rfl⟩, _, rfl⟩ := during
  have reached := exec_append_some.mpr ⟨mid, first, second⟩
  obtain ⟨st₁, same, rest⟩ := exec_append_some.mp run
  cases Option.some.inj (reached.symm.trans same)
  exact ⟨es₁, es₂, mid, st, first, second, rfl, rfl, tasks_grow_run rest⟩

/-- At both moments the shared state is one that the program alone reaches. -/
theorem during_refines {g₀ : G} (run : exec F.program.next ⟨g₀, []⟩ es = some st')
    (during : F.During ⟨g₀, []⟩ es k g g') :
    (∃ es₀ s, exec p.next ⟨g₀, []⟩ es₀ = some s ∧ s.shared = g ∧
      s.tasks.length ≤ st'.tasks.length) ∧
    ∃ es₀ s, exec p.next ⟨g₀, []⟩ es₀ = some s ∧ s.shared = g' ∧
      s.tasks.length ≤ st'.tasks.length := by
  obtain ⟨es₁, es₂, mid, st, first, second, rfl, rfl, grown⟩ := during_split run during
  obtain ⟨fs, s, before, shared, less⟩ := front_refines first
  obtain ⟨fs', s', after, shared', less'⟩ := front_refines (exec_append_some.mpr ⟨mid, first, second⟩)
  have grown' := tasks_grow_run second
  exact ⟨⟨fs, s, before, shared, by omega⟩, fs', s', after, shared', by omega⟩

end Moments

/- What handlers do -/

section Acts
variable {G T A E Q B N R : Type} {p : Program G T A E} {F : Front p Q B N R}

def innerAct (k : Nat) : Event (FrontCall Q B) (FrontAct E) → Option E
  | .step j (.inner x) => if j = k then some x else none
  | _ => none

def innerActs (k : Nat) (es : List (Event (FrontCall Q B) (FrontAct E))) : List E :=
  es.filterMap (innerAct k)

/-- The task has taken these steps, at any moments, from `t` to where it is. -/
inductive Ran (p : Program G T A E) (t : T) : List E → T → Prop where
  | start : Ran p t [] t
  | more (xs : List E) (x : E) (t' t'' : T) (g g' : G) (before : Ran p t xs t')
      (moved : p.step g t' x = some (g', t'')) : Ran p t (xs ++ [x]) t''

/-- What a handler replies to a call is by the task that the call's own steps lead to. -/
def Acted (F : Front p Q B N R) (xs : List E) : FrontTask Q T N R → Prop
  | .handler (.arrived _) => xs = []
  | .handler (.calling q _ t) => ∀ a promised reply, F.plan q = .call a promised reply →
      ∃ g, Ran p (p.spawn g a).2 xs t
  | .handler (.answered q _ r) => ∀ a promised reply, F.plan q = .call a promised reply →
      ∃ g n t, Ran p (p.spawn g a).2 xs t ∧ reply n t = some r
  | _ => True

variable {st st' : F.State} {es : F.Events} {k : Nat} {g g' : G}

theorem inner_acts_append (e : Event (FrontCall Q B) (FrontAct E)) :
    innerActs k (es ++ [e]) = innerActs k es ++ (innerAct k e).toList := by
  unfold innerActs
  rw [List.filterMap_append]
  cases acts : innerAct k e <;> simp [acts]

theorem acted_step {u u' : FrontTask Q T N R} {x : FrontAct E} {xs : List E} (acted : Acted F xs u)
    (step : FrontStep F g u x g' u') :
    Acted F (xs ++ (innerAct k (.step k x : Event (FrontCall Q B) (FrontAct E))).toList) u' := by
  cases step with
  | call q a promised reply planned =>
    intro b promised' reply' planned'
    cases planned.symm.trans planned'
    have none_ : xs = [] := acted
    subst none_
    exact ⟨g, .start⟩
  | look q first reply planned => trivial
  | refuse q r planned =>
    intro a promised reply planned'
    cases planned.symm.trans planned'
  | finish q n t a promised reply r planned replies =>
    intro b promised' reply' planned'
    cases planned.symm.trans planned'
    obtain ⟨g, ran⟩ := acted a promised reply planned
    simp only [innerAct, Option.toList_none, List.append_nil]
    exact ⟨g, n, t, ran, replies⟩
  | tell q n first reply planned =>
    intro a promised reply' planned'
    cases planned.symm.trans planned'
  | work q n t x g' t' moved =>
    intro a promised reply planned
    obtain ⟨g₀, ran⟩ := acted a promised reply planned
    rw [innerAct, if_pos rfl, Option.toList_some]
    exact ⟨g₀, .more xs x t t' g g' ran moved⟩
  | beside t x g' t' moved => trivial

theorem acted_next {e : Event (FrontCall Q B) (FrontAct E)}
    (before : ∀ (k : Nat) u, st.tasks[k]? = some u → Acted F (innerActs k es) u)
    (unborn : ∀ k, st.tasks.length ≤ k → innerActs k es = [])
    (h : F.program.next st e = some st') :
    (∀ (k : Nat) u, st'.tasks[k]? = some u → Acted F (innerActs k (es ++ [e])) u) ∧
      ∀ k, st'.tasks.length ≤ k → innerActs k (es ++ [e]) = [] := by
  rcases next_cases h with ⟨call, rfl, rfl⟩ | ⟨i, x, u, g, u', rfl, found, moved, rfl⟩
  · have same : ∀ k, innerActs k (es ++ [.spawn call]) = innerActs k es := fun k => by
      simp only [inner_acts_append, innerAct, Option.toList_none, List.append_nil]
    constructor
    · intro k v atK
      rw [same]
      rcases getElem?_append_one atK with old | ⟨rfl, rfl⟩
      · exact before k v old
      · cases call with
        | request q => exact unborn _ (Nat.le_refl _)
        | beside b => trivial
    · intro k outside
      rw [List.length_append, List.length_singleton] at outside
      rw [same]
      exact unborn k (by omega)
  · have inside := (List.getElem?_eq_some_iff.mp found).1
    have other : ∀ k, k ≠ i → innerActs k (es ++ [.step i x]) = innerActs k es := fun k apart => by
      rw [inner_acts_append]
      cases x <;> simp [innerAct, apart.symm]
    constructor
    · intro k v atK
      rcases getElem?_set_cases atK with ⟨rfl, rfl⟩ | ⟨apart, old⟩
      · rw [inner_acts_append]
        exact acted_step (before k u found) (front_step moved)
      · rw [other k apart]
        exact before k v old
    · intro k outside
      rw [List.length_set] at outside
      rw [other k (by omega)]
      exact unborn k outside

theorem acted_run (run : exec F.program.next ⟨g, []⟩ es = some st) :
    (∀ (k : Nat) u, st.tasks[k]? = some u → Acted F (innerActs k es) u) ∧
      ∀ k, st.tasks.length ≤ k → innerActs k es = [] := by
  induction es using List.reverseRecOn generalizing st with
  | nil =>
    cases Option.some.inj run
    exact ⟨nofun, fun _ _ => rfl⟩
  | append_singleton es e ih =>
    obtain ⟨mid, first, last⟩ := exec_append_some.mp run
    obtain ⟨st', next, eq⟩ := exec_cons_some.mp last
    cases Option.some.inj eq
    obtain ⟨before, unborn⟩ := ih first
    exact acted_next before unborn next

theorem reply_by_acts (run : exec F.program.next ⟨g, []⟩ es = some st) {q : Q} {n : Option N} {r : R}
    (found : st.tasks[k]? = some (.handler (.answered q n r))) {a : A} {promised : G → N}
    {reply : N → T → Option R} (planned : F.plan q = .call a promised reply) :
    ∃ g n t, Ran p (p.spawn g a).2 (innerActs k es) t ∧ reply n t = some r :=
  (acted_run run).1 k _ found a promised reply planned

end Acts

/- The numbers of calls -/

section Numbers
variable {G T A E Q B N R M : Type} {p : Program G T A E}

/-- Each call of a handler draws one number from a counter, and nothing else moves it. -/
structure Counting (F : Front p Q B N R) (label : N → M) (name : UInt64 → M) where
  counter : G → UInt64
  outside : ∀ b g, counter (p.spawn g (F.outside b)).1 = counter g
  begins : ∀ q a promised reply g, F.plan q = .call a promised reply →
    counter (p.spawn g a).1 = fetchAddOne (counter g) ∧
      label (promised g) = name (fetchAddOne (counter g))
  stepped : ∀ g t x g' t', p.step g t x = some (g', t') → counter g' = counter g

def Front.number (F : Front p Q B N R) : FrontTask Q T N R → Option N
  | .handler (.calling _ n _) => some n
  | .handler (.answered q n _) => match F.plan q with
    | .call _ _ _ => n
    | _ => none
  | _ => none

/-- After `m` draws: those who came at place `i` or later have numbers of draws after the
    `k`-th. -/
structure Counting.Drawn {F : Front p Q B N R} {label : N → M} {name : UInt64 → M}
    (C : Counting F label name) (i k m : Nat) (st : System G (FrontTask Q T N R)) : Prop where
  counter : C.counter st.shared = UInt64.ofNat (m + 1)
  few : m + st.tasks.countP waiting ≤ st.tasks.length
  numbers : ∀ (j : Nat) u n, i ≤ j → st.tasks[j]? = some u → F.number u = some n →
    ∃ l, k < l ∧ l ≤ m ∧ label n = name (UInt64.ofNat (l + 1))

def Front.Distinct (F : Front p Q B N R) (label : N → M) (st : System G (FrontTask Q T N R)) : Prop :=
  ∀ (j j' : Nat) u u' n n', st.tasks[j]? = some u → st.tasks[j']? = some u' →
    F.number u = some n → F.number u' = some n' → label n = label n' → j = j'

variable {F : Front p Q B N R} {label : N → M} {name : UInt64 → M} {C : Counting F label name}
  {i k m : Nat}
  {st st' : System G (FrontTask Q T N R)} {g g' : G}

theorem number_step {t t' : FrontTask Q T N R} {x : FrontAct E} (C : Counting F label name)
    (step : FrontStep F g t x g' t') :
    waiting t' = false ∧
      ((C.counter g' = C.counter g ∧ ∀ n, F.number t' = some n → F.number t = some n) ∨
        (C.counter g' = fetchAddOne (C.counter g) ∧ waiting t = true ∧
          ∃ n, F.number t' = some n ∧ label n = name (fetchAddOne (C.counter g)))) := by
  cases step with
  | call q a promised reply planned =>
    obtain ⟨counter, named⟩ := C.begins q a promised reply g planned
    exact ⟨rfl, Or.inr ⟨counter, rfl, _, rfl, named⟩⟩
  | look q first reply planned => exact ⟨rfl, Or.inl ⟨rfl, by simp [Front.number]⟩⟩
  | refuse q r planned => exact ⟨rfl, Or.inl ⟨rfl, by simp [Front.number, planned]⟩⟩
  | finish q n t a promised reply r planned replies =>
    exact ⟨rfl, Or.inl ⟨rfl, by simp [Front.number, planned]⟩⟩
  | tell q n first reply planned => exact ⟨rfl, Or.inl ⟨rfl, by simp [Front.number, planned]⟩⟩
  | work q n t x g' t' moved => exact ⟨rfl, Or.inl ⟨C.stepped g t x g' t' moved, fun _ same => same⟩⟩
  | beside t x g' t' moved => exact ⟨rfl, Or.inl ⟨C.stepped g t x g' t' moved, fun _ same => same⟩⟩

theorem number_spawned (call : FrontCall Q B) : F.number (F.program.spawn g call).2 = none := by
  cases call <;> rfl

theorem drawn_next {e : Event (FrontCall Q B) (FrontAct E)} (drawn : C.Drawn i k m st)
    (below : k ≤ m) (h : F.program.next st e = some st') : ∃ m', m ≤ m' ∧ C.Drawn i k m' st' := by
  rcases next_cases h with ⟨call, rfl, rfl⟩ | ⟨j, x, t, g, t', rfl, found, moved, rfl⟩
  · refine ⟨m, Nat.le_refl m, ?_, ?_, ?_⟩
    · cases call with
      | request q => exact drawn.counter
      | beside b => exact (C.outside b st.shared).trans drawn.counter
    · have := drawn.few
      rw [List.countP_append, List.length_append]
      simp only [List.countP_singleton, List.length_singleton]
      split_ifs <;> omega
    · intro l u n later atL number
      rcases getElem?_append_one atL with old | ⟨_, rfl⟩
      · exact drawn.numbers l u n later old number
      · rw [number_spawned] at number
        contradiction
  · obtain ⟨begun, step⟩ := number_step C (front_step moved)
    have count := waiting_set found begun
    have few := drawn.few
    rcases step with ⟨counter, fewer⟩ | ⟨counter, waited, n', drew, named⟩
    · refine ⟨m, Nat.le_refl m, counter.trans drawn.counter, ?_, ?_⟩
      · change m + (st.tasks.set j t').countP waiting ≤ (st.tasks.set j t').length
        rw [List.length_set]
        omega
      · intro l u n later atL number
        rcases getElem?_set_cases atL with ⟨rfl, rfl⟩ | ⟨_, old⟩
        · exact drawn.numbers l t n later found (fewer n number)
        · exact drawn.numbers l u n later old number
    · have next : C.counter g = UInt64.ofNat (m + 1 + 1) := by
        rw [counter, drawn.counter, fetch_add_one_of_count]
      refine ⟨m + 1, Nat.le_succ m, next, ?_, ?_⟩
      · change m + 1 + (st.tasks.set j t').countP waiting ≤ (st.tasks.set j t').length
        rw [List.length_set]
        rw [waited, if_pos rfl] at count
        omega
      · intro l u n later atL number
        rcases getElem?_set_cases atL with ⟨rfl, rfl⟩ | ⟨_, old⟩
        · cases drew.symm.trans number
          exact ⟨m + 1, Nat.lt_succ_of_le below, Nat.le_refl _, by rw [named, ← counter, next]⟩
        · obtain ⟨d, above, within, same⟩ := drawn.numbers l u n later old number
          exact ⟨d, above, Nat.le_succ_of_le within, same⟩

theorem drawn_run {es : List (Event (FrontCall Q B) (FrontAct E))} (drawn : C.Drawn i k m st)
    (below : k ≤ m) (run : exec F.program.next st es = some st') :
    ∃ m', m ≤ m' ∧ C.Drawn i k m' st' :=
  exec_invariant (I := fun s => ∃ m', m ≤ m' ∧ C.Drawn i k m' s)
    (fun _ _ _ ⟨_, more, before⟩ h => by
      obtain ⟨m', grows, after⟩ := drawn_next before (Nat.le_trans below more) h
      exact ⟨m', Nat.le_trans more grows, after⟩) run ⟨m, Nat.le_refl m, drawn⟩

theorem drawn_start (counter : C.counter g = 1) : C.Drawn 0 0 0 ⟨g, []⟩ := by
  constructor
  case counter => exact counter
  case few => simp
  case numbers => simp

/-- A request that comes after another one has drawn its number draws a higher one. -/
theorem later_request_higher {es fs : List (Event (FrontCall Q B) (FrontAct E))}
    (counter : C.counter g = 1) (run : exec F.program.next ⟨g, []⟩ es = some st)
    (more : exec F.program.next st fs = some st') (few : st'.tasks.length + 1 < 2 ^ 64) {j : Nat}
    {u v : FrontTask Q T N R} {n n' : N} (first : st.tasks[i]? = some u) (drew : F.number u = some n)
    (later : st.tasks.length ≤ j) (second : st'.tasks[j]? = some v) (drew' : F.number v = some n') :
    Older name (label n) (label n') := by
  obtain ⟨k, _, before⟩ := drawn_run (drawn_start counter) (Nat.le_refl 0) run
  obtain ⟨l, _, within, named⟩ := before.numbers i u n (Nat.zero_le i) first drew
  have fresh : C.Drawn st.tasks.length k k st := by
    refine ⟨before.counter, before.few, ?_⟩
    intro j w m outside found
    have := (List.getElem?_eq_some_iff.mp found).1
    omega
  obtain ⟨m, _, after⟩ := drawn_run fresh (Nat.le_refl k) more
  obtain ⟨l', above, within', named'⟩ := after.numbers j v n' later second drew'
  have below := after.few
  refine ⟨_, _, named, named', ?_⟩
  rw [UInt64.lt_iff_toNat_lt, UInt64.toNat_ofNat', UInt64.toNat_ofNat', Nat.mod_eq_of_lt (by omega),
    Nat.mod_eq_of_lt (by omega)]
  omega

theorem during_counter {es : List (Event (FrontCall Q B) (FrontAct E))} (counter : C.counter g = 1)
    (run : exec F.program.next ⟨g, []⟩ es = some st) (few : st.tasks.length + 1 < 2 ^ 64) {j : Nat}
    {g₁ g₂ : G} (during : F.During ⟨g, []⟩ es j g₁ g₂) : C.counter g₁ ≤ C.counter g₂ := by
  obtain ⟨es₁, es₂, mid, st', first, second, rfl, rfl, grown⟩ := during_split run during
  obtain ⟨k, _, before⟩ := drawn_run (drawn_start counter) (Nat.le_refl 0) first
  obtain ⟨m, above, after⟩ := drawn_run before (Nat.zero_le k) second
  have below := after.few
  rw [before.counter, after.counter, UInt64.le_iff_toNat_le, UInt64.toNat_ofNat',
    UInt64.toNat_ofNat', Nat.mod_eq_of_lt (by omega), Nat.mod_eq_of_lt (by omega)]
  omega

theorem distinct_next (injective : Function.Injective name)
    {e : Event (FrontCall Q B) (FrontAct E)} (drawn : C.Drawn 0 0 m st) (distinct : F.Distinct label st)
    (few : st'.tasks.length + 1 < 2 ^ 64) (h : F.program.next st e = some st') : F.Distinct label st' := by
  have grown := tasks_grow h
  rcases next_cases h with ⟨call, rfl, rfl⟩ | ⟨j, x, t, g, t', rfl, found, moved, rfl⟩
  · intro a b u v n n' atA atB numberA numberB same
    have old : ∀ (l : Nat) w o, (st.tasks ++ [(F.program.spawn st.shared call).2])[l]? = some w →
        F.number w = some o → st.tasks[l]? = some w := by
      intro l w o atL number
      rcases getElem?_append_one atL with old | ⟨_, rfl⟩
      · exact old
      · rw [number_spawned] at number
        contradiction
    exact distinct a b u v n n' (old a u n atA numberA) (old b v n' atB numberB) numberA numberB same
  · obtain ⟨_, ⟨_, fewer⟩ | ⟨_, _, d, drew, named⟩⟩ := number_step C (front_step moved)
    · intro a b u v n n' atA atB numberA numberB same
      have old : ∀ (l : Nat) w o, (st.tasks.set j t')[l]? = some w → F.number w = some o →
          ∃ w', st.tasks[l]? = some w' ∧ F.number w' = some o := by
        intro l w o atL number
        rcases getElem?_set_cases atL with ⟨rfl, rfl⟩ | ⟨_, old⟩
        · exact ⟨t, found, fewer o number⟩
        · exact ⟨w, old, number⟩
      obtain ⟨u', oldA, numberA'⟩ := old a u n atA numberA
      obtain ⟨v', oldB, numberB'⟩ := old b v n' atB numberB
      exact distinct a b u' v' n n' oldA oldB numberA' numberB' same
    · have fresh : ∀ (l : Nat) w o, st.tasks[l]? = some w → F.number w = some o →
          label o ≠ label d := by
        intro l w o atL number same
        obtain ⟨e, _, within, named'⟩ := drawn.numbers l w o (Nat.zero_le l) atL number
        rw [same, named, drawn.counter, fetch_add_one_of_count] at named'
        have below := drawn.few
        have := number_injective (by omega) (by omega) (injective named')
        omega
      intro a b u v n n' atA atB numberA numberB same
      rcases getElem?_set_cases atA with ⟨rfl, rfl⟩ | ⟨_, oldA⟩
      · rcases getElem?_set_cases atB with ⟨rfl, _⟩ | ⟨_, oldB⟩
        · rfl
        · cases drew.symm.trans numberA
          exact absurd same.symm (fresh b v n' oldB numberB)
      · rcases getElem?_set_cases atB with ⟨rfl, rfl⟩ | ⟨_, oldB⟩
        · cases drew.symm.trans numberB
          exact absurd same (fresh a u n oldA numberA)
        · exact distinct a b u v n n' oldA oldB numberA numberB same

theorem numbers_distinct (injective : Function.Injective name)
    {es : List (Event (FrontCall Q B) (FrontAct E))} (counter : C.counter g = 1)
    (run : exec F.program.next ⟨g, []⟩ es = some st) (few : st.tasks.length + 1 < 2 ^ 64) :
    F.Distinct label st := by
  induction es using List.reverseRecOn generalizing st with
  | nil =>
    cases Option.some.inj run
    simp [Front.Distinct]
  | append_singleton es e ih =>
    obtain ⟨mid, before, last⟩ := exec_append_some.mp run
    obtain ⟨st', next, eq⟩ := exec_cons_some.mp last
    cases Option.some.inj eq
    have grown := tasks_grow next
    obtain ⟨m, _, drawn⟩ := drawn_run (drawn_start counter) (Nat.le_refl 0) before
    exact distinct_next injective drawn (ih before (by omega)) few next

end Numbers

end RequestHandlers
