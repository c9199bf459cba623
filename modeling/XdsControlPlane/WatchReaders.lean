import XdsControlPlane.ExecutableRuns
import XdsControlPlane.SharedCells

/-!
Tasks that follow one watch channel for a growing set of keys. A reader answers a
new key from the value of the moment, and after a change it takes the latest
value and visits all its keys with it. What it has sent is then a reading of the
channel's history that never goes back; and with nothing new to do, a number of
its own steps that is known beforehand brings it up to date.
-/
namespace WatchReaders
open ExecutableRuns SharedCells

/- What a run sends on the channel -/

section History
variable {S E V : Type}

def sends (step : S → E → Option S) (watch : S → Watch V) : S → List E → List V
  | _, [] => []
  | s, e :: es =>
    match step s e with
    | none => []
    | some t =>
      (if (watch t).stamp = (watch s).stamp then [] else [(watch t).value]) ++ sends step watch t es

/-- Every value the channel has had, in order, from the one it has now. -/
def publications (step : S → E → Option S) (watch : S → Watch V) (s : S) (es : List E) : List V :=
  (watch s).value :: sends step watch s es

/-- The channel is as it was, or one value was sent on it. -/
def Changes (w w' : Watch V) : Prop := w' = w ∨ ∃ v, w' = w.send v

def EndsIn (w : Watch V) (published : List V) : Prop := published.getLast? = some w.value

variable {step : S → E → Option S} {watch : S → Watch V}

theorem sends_cons {s t : S} {e : E} (moved : step s e = some t) (es : List E) :
    sends step watch s (e :: es) =
      (if (watch t).stamp = (watch s).stamp then [] else [(watch t).value]) ++
        sends step watch t es := by
  simp only [sends, moved]

theorem sends_append {s t : S} {es : List E} (run : exec step s es = some t) (fs : List E) :
    sends step watch s (es ++ fs) = sends step watch s es ++ sends step watch t fs := by
  induction es generalizing s with
  | nil =>
    cases Option.some.inj run
    rfl
  | cons e es ih =>
    obtain ⟨m, first, rest⟩ := exec_cons_some.mp run
    rw [List.cons_append, sends_cons first, sends_cons first, ih rest, List.append_assoc]

theorem publications_append {s t : S} {es : List E} (run : exec step s es = some t) (fs : List E) :
    publications step watch s (es ++ fs) =
      publications step watch s es ++ sends step watch t fs := by
  rw [publications, sends_append run, publications, List.cons_append]

theorem latest_at {w : Watch V} {published : List V} (latest : EndsIn w published) :
    published[published.length - 1]? = some w.value := by
  rw [← List.getLast?_eq_getElem?]
  exact latest

theorem exec_published {I : S → List V → Prop} {s u : S} {es : List E} {published : List V}
    (still : ∀ s published e t, e ∈ es → I s published → step s e = some t → watch t = watch s →
      I t published)
    (sent : ∀ s published e t v, e ∈ es → I s published → step s e = some t →
      watch t = (watch s).send v → I t (published ++ [v]))
    (changes : ∀ s e t, step s e = some t → Changes (watch s) (watch t))
    (run : exec step s es = some u) (initial : I s published) :
    I u (published ++ sends step watch s es) := by
  induction es generalizing s published with
  | nil =>
    cases Option.some.inj run
    rwa [sends, List.append_nil]
  | cons e es ih =>
    obtain ⟨t, first, rest⟩ := exec_cons_some.mp run
    have later : ∀ published, I t published → I u (published ++ sends step watch t es) := by
      intro published initial
      apply ih ?_ ?_ rest initial
      · exact fun s published d t member => still s published d t (List.mem_cons_of_mem e member)
      · exact fun s published d t v member => sent s published d t v (List.mem_cons_of_mem e member)
    rw [sends_cons first]
    rcases changes s e t first with same | ⟨v, put⟩
    · rw [if_pos (congrArg Watch.stamp same), List.nil_append]
      exact later _ (still s published e t List.mem_cons_self initial first same)
    · have moved : ¬ (watch t).stamp = (watch s).stamp := by simp [put, Watch.send]
      have value : (watch t).value = v := by rw [put]; rfl
      rw [if_neg moved, value, ← List.append_assoc]
      exact later _ (sent s published e t v List.mem_cons_self initial first put)

theorem stamp_run (changes : ∀ s e t, step s e = some t → Changes (watch s) (watch t))
    {s u : S} {es : List E} (run : exec step s es = some u) :
    (watch s).stamp ≤ (watch u).stamp := by
  induction es generalizing s with
  | nil =>
    cases Option.some.inj run
    exact Nat.le_refl _
  | cons e es ih =>
    obtain ⟨t, first, rest⟩ := exec_cons_some.mp run
    have later := ih rest
    rcases changes s e t first with same | ⟨v, put⟩
    · rwa [same] at later
    · rw [put] at later
      simp only [Watch.send] at later
      omega

theorem publications_length (changes : ∀ s e t, step s e = some t → Changes (watch s) (watch t))
    {s u : S} {es : List E} (run : exec step s es = some u) :
    (publications step watch s es).length + (watch s).stamp = (watch u).stamp + 1 := by
  induction es generalizing s with
  | nil =>
    cases Option.some.inj run
    exact Nat.add_comm 1 _
  | cons e es ih =>
    obtain ⟨t, first, rest⟩ := exec_cons_some.mp run
    have later := ih rest
    simp only [publications, List.length_cons] at later ⊢
    rw [sends_cons first, List.length_append]
    rcases changes s e t first with same | ⟨v, put⟩
    · rw [same] at later
      rw [if_pos (congrArg Watch.stamp same), List.length_nil]
      omega
    · have moved : (watch t).stamp = (watch s).stamp + 1 := congrArg Watch.stamp put
      rw [if_neg (by omega), List.length_singleton]
      omega

theorem still_first (changes : ∀ s e t, step s e = some t → Changes (watch s) (watch t))
    {s t u : S} {e : E} {es : List E} (first : step s e = some t) (rest : exec step t es = some u)
    (still : (watch u).stamp = (watch s).stamp) : watch t = watch s := by
  rcases changes s e t first with same | ⟨v, put⟩
  · exact same
  · have later := stamp_run changes rest
    rw [put] at later
    simp only [Watch.send] at later
    omega

end History

/- Readers -/

section Readers
variable {K V O R : Type}

/-- Where a reader's loop stands. While it is `away` it is about to send a value itself. -/
inductive Stage (K V : Type) where
  | idle : Stage K V
  | answering : K → V → Stage K V
  | visiting : V → List K → Stage K V
  | away : Stage K V
  | closed : Stage K V

def Stage.inHand : Stage K V → Option V
  | .answering _ v => some v
  | .visiting v _ => some v
  | _ => none

def Stage.owed : Stage K V → List K
  | .answering k _ => [k]
  | .visiting _ todo => todo
  | _ => []

def Stage.work : Stage K V → Nat
  | .answering _ _ => 1
  | .visiting _ todo => todo.length + 1
  | _ => 0

structure Reader (K V O : Type) where
  receiver : Receiver
  keys : List K
  stage : Stage K V
  out : O

/-- What serving a key with a value puts out; `sent` is latest first. In an output
    that is `ok`, nothing is rendered that the last response of its key renders. -/
structure Channel (K V O R : Type) where
  put : K → V → O → O
  sent : O → List R
  renders : V → R → Prop
  key : R → Option K
  ok : O → Prop
  put_ok : ∀ k v o, ok o → ok (put k v o)
  put_sent : ∀ k v o, ok o → sent (put k v o) = sent o ∨
    ∃ q, renders v q ∧ sent (put k v o) = q :: sent o ∧
      ∀ j newer last older, key q = some j → sent o = newer ++ last :: older →
        (∀ r ∈ newer, key r ≠ some j) → key last = some j → ¬ renders v last

/-- One step of a reader, and whether it is one that its loop takes by itself. -/
inductive ReaderStep (c : Channel K V O R) (w : Watch V) (r : Reader K V O) :
    Bool → Reader K V O → Prop where
  | note (keys : List K) (out : O) (stage : Stage K V) (idle : r.stage = .idle)
      (rests : stage = .idle ∨ stage = .away) (grows : r.keys ⊆ keys)
      (quiet : c.sent out = c.sent r.out) (ok : c.ok r.out → c.ok out) :
      ReaderStep c w r false { r with keys := keys, out := out, stage := stage }
  | ask (k : K) (keys : List K) (out : O) (idle : r.stage = .idle) (asked : k ∈ keys)
      (grows : r.keys ⊆ keys) (quiet : c.sent out = c.sent r.out) (ok : c.ok r.out → c.ok out) :
      ReaderStep c w r false { r with keys := keys, out := out, stage := .answering k w.value }
  | answer (k : K) (v : V) (answering : r.stage = .answering k v) :
      ReaderStep c w r true { r with stage := .idle, out := c.put k v r.out }
  | wake (order : List K) (idle : r.stage = .idle) (behind : ¬ r.receiver.UpToDate w)
      (visits : order.Perm r.keys) :
      ReaderStep c w r true { r with receiver := ⟨w.stamp⟩, stage := .visiting w.value order }
  | visit (k : K) (v : V) (todo : List K) (visiting : r.stage = .visiting v (k :: todo)) :
      ReaderStep c w r true { r with stage := .visiting v todo, out := c.put k v r.out }
  | finish (v : V) (visiting : r.stage = .visiting v []) :
      ReaderStep c w r true { r with stage := .idle }
  | close (keys : List K) : ReaderStep c w r false { r with keys := keys, stage := .closed }

structure Fresh (c : Channel K V O R) (w : Watch V) (r : Reader K V O) : Prop where
  receiver : r.receiver.UpToDate w
  stage : r.stage = .idle
  sent : c.sent r.out = []
  ok : c.ok r.out

/- What a reader has sent -/

/-- Responses `rs`, latest first, are readings of `published` that never go back, none
    of them from after place `n`; of one key, each is from a later place than the last. -/
structure Follows (c : Channel K V O R) (published : List V) (rs : List R) (n : Nat)
    (places : List (R × Nat)) : Prop where
  sent : places.map Prod.fst = rs
  renders : ∀ x ∈ places, ∃ v, published[x.2]? = some v ∧ c.renders v x.1
  descending : places.Pairwise fun later earlier => earlier.2 ≤ later.2
  advances : places.Pairwise fun later earlier => ∀ j, c.key later.1 = some j →
    c.key earlier.1 = some j → earlier.2 < later.2
  bound : ∀ x ∈ places, x.2 ≤ n

variable {c : Channel K V O R} {published : List V} {rs : List R} {m n : Nat}
  {places : List (R × Nat)}

theorem follows_nil (c : Channel K V O R) (published : List V) (n : Nat) :
    Follows c published [] n [] := by
  constructor
  case sent => rfl
  case renders => simp
  case descending => exact .nil
  case advances => exact .nil
  case bound => simp

theorem follows_published (follows : Follows c published rs n places) (v : V) :
    Follows c (published ++ [v]) rs n places := by
  refine { follows with renders := ?_ }
  intro x member
  obtain ⟨u, held, renders⟩ := follows.renders x member
  refine ⟨u, ?_, renders⟩
  rwa [List.getElem?_append_left (List.getElem?_eq_some_iff.mp held).1]

theorem follows_inside (follows : Follows c published rs n places) :
    Follows c published rs (published.length - 1) places := by
  refine { follows with bound := ?_ }
  intro x member
  obtain ⟨v, held, _⟩ := follows.renders x member
  have inside := (List.getElem?_eq_some_iff.mp held).1
  omega

theorem last_with {X : Type} {P : X → Prop} {xs : List X} {x : X} (member : x ∈ xs) (holds : P x) :
    ∃ newer y older, xs = newer ++ y :: older ∧ (∀ z ∈ newer, ¬ P z) ∧ P y := by
  induction xs with
  | nil => simp at member
  | cons z zs ih =>
    by_cases first : P z
    · exact ⟨[], z, zs, rfl, by simp, first⟩
    · have rest : x ∈ zs := by
        rcases List.mem_cons.mp member with rfl | rest
        · exact absurd holds first
        · exact rest
      obtain ⟨newer, y, older, split, none_, held⟩ := ih rest
      refine ⟨z :: newer, y, older, by rw [split, List.cons_append], ?_, held⟩
      intro u inNewer
      rcases List.mem_cons.mp inNewer with rfl | later
      · exact first
      · exact none_ u later

/-- Serving a key with the value at place `n` is one more reading, or none. -/
theorem follows_put {o : O} (ok : c.ok o) (follows : Follows c published (c.sent o) n places)
    {v : V} (held : published[n]? = some v) (k : K) :
    ∃ places', Follows c published (c.sent (c.put k v o)) n places' := by
  rcases c.put_sent k v o ok with quiet | ⟨q, renders, sent, fresh⟩
  · exact ⟨places, quiet ▸ follows⟩
  · refine ⟨(q, n) :: places, ?_⟩
    constructor
    case sent => rw [sent, List.map_cons, follows.sent]
    case renders =>
      intro x member
      rcases List.mem_cons.mp member with rfl | old
      · exact ⟨v, held, renders⟩
      · exact follows.renders x old
    case descending => exact List.pairwise_cons.mpr ⟨follows.bound, follows.descending⟩
    case advances =>
      refine List.pairwise_cons.mpr ⟨?_, follows.advances⟩
      intro x member j keyQ keyX
      -- the last response of this key is from a place that renders something else
      obtain ⟨newer, y, older, split, none_, keyY⟩ :=
        last_with (P := fun z => c.key z.1 = some j) member keyX
      have notRendered : ¬ c.renders v y.1 := by
        apply fresh j (newer.map Prod.fst) y.1 (older.map Prod.fst) keyQ ?_ ?_ keyY
        · rw [← follows.sent, split, List.map_append, List.map_cons]
        · intro r inNewer
          obtain ⟨z, zInNewer, rfl⟩ := List.mem_map.mp inNewer
          exact none_ z zInNewer
      have inPlaces : y ∈ places := by simp [split]
      have earlier : x.2 ≤ y.2 := by
        have descending := follows.descending
        rw [split] at member descending
        rcases List.mem_append.mp member with inNewer | inRest
        · exact absurd keyX (none_ x inNewer)
        · rcases List.mem_cons.mp inRest with rfl | inOlder
          · exact Nat.le_refl _
          · exact (List.pairwise_cons.mp (List.pairwise_append.mp descending).2.1).1 x inOlder
      have notHere : y.2 ≠ n := by
        intro here
        obtain ⟨u, heldU, rendersU⟩ := follows.renders y inPlaces
        rw [here, held] at heldU
        exact notRendered (Option.some.inj heldU ▸ rendersU)
      have below := follows.bound y inPlaces
      omega
    case bound =>
      intro x member
      rcases List.mem_cons.mp member with rfl | old
      · exact Nat.le_refl _
      · exact follows.bound x old

theorem follows_count [DecidableEq K] (follows : Follows c published rs n places) (j : K) :
    rs.countP (fun q => c.key q = some j) ≤ published.length := by
  have ofKey : rs.countP (fun q => c.key q = some j) =
      (places.filter fun x => c.key x.1 = some j).length := by
    rw [← follows.sent, List.countP_map, List.countP_eq_length_filter]
    rfl
  have distinct : ((places.filter fun x => c.key x.1 = some j).map Prod.snd).Nodup := by
    rw [List.Nodup, List.pairwise_map]
    apply (follows.advances.filter _).imp_of_mem
    intro later earlier inLater inEarlier advances same
    have keyLater := of_decide_eq_true (List.mem_filter.mp inLater).2
    have keyEarlier := of_decide_eq_true (List.mem_filter.mp inEarlier).2
    have less := advances j keyLater keyEarlier
    omega
  have inside : (places.filter fun x => c.key x.1 = some j).map Prod.snd ⊆
      List.range published.length := by
    intro place member
    obtain ⟨x, inFilter, rfl⟩ := List.mem_map.mp member
    obtain ⟨v, held, _⟩ := follows.renders x (List.mem_filter.mp inFilter).1
    exact List.mem_range.mpr (List.getElem?_eq_some_iff.mp held).1
  have few := distinct.length_le_of_subset inside
  rw [List.length_map, List.length_range] at few
  omega

/-- What a reader has sent follows the history, up to the place of what it has in hand. -/
structure InOrder (c : Channel K V O R) (published : List V) (r : Reader K V O) : Prop where
  ok : c.ok r.out
  sent : ∃ n places, Follows c published (c.sent r.out) n places ∧
    ∀ v, r.stage.inHand = some v → published[n]? = some v

theorem in_order_fresh {w : Watch V} {r : Reader K V O} (fresh : Fresh c w r) :
    InOrder c published r := by
  refine ⟨fresh.ok, 0, [], ?_, ?_⟩
  · rw [fresh.sent]
    exact follows_nil c published 0
  · intro v inHand
    simp [fresh.stage, Stage.inHand] at inHand

theorem in_order_published {r : Reader K V O} (inOrder : InOrder c published r) (v : V) :
    InOrder c (published ++ [v]) r := by
  obtain ⟨n, places, follows, place⟩ := inOrder.sent
  refine ⟨inOrder.ok, n, places, follows_published follows v, ?_⟩
  intro u inHand
  have held := place u inHand
  rwa [List.getElem?_append_left (List.getElem?_eq_some_iff.mp held).1]

theorem in_order_quiet {w : Watch V} {r r' : Reader K V O} (latest : EndsIn w published)
    (inOrder : InOrder c published r) (ok : c.ok r'.out) (quiet : c.sent r'.out = c.sent r.out)
    (inHand : ∀ v, r'.stage.inHand = some v → v = w.value) : InOrder c published r' := by
  obtain ⟨n, places, follows, _⟩ := inOrder.sent
  refine ⟨ok, published.length - 1, places, ?_, ?_⟩
  · rw [quiet]
    exact follows_inside follows
  · intro v held
    rw [inHand v held]
    exact latest_at latest

theorem in_order_put {r : Reader K V O} (inOrder : InOrder c published r) {k : K} {v : V}
    (held : r.stage.inHand = some v) {stage : Stage K V}
    (keeps : ∀ u, stage.inHand = some u → u = v) :
    InOrder c published { r with stage := stage, out := c.put k v r.out } := by
  obtain ⟨n, places, follows, place⟩ := inOrder.sent
  obtain ⟨places', follows'⟩ := follows_put inOrder.ok follows (place v held) k
  refine ⟨c.put_ok k v r.out inOrder.ok, n, places', follows', ?_⟩
  intro u inHand
  rw [keeps u inHand]
  exact place v held

theorem in_order_step {w : Watch V} {r r' : Reader K V O} {own : Bool}
    (latest : EndsIn w published) (inOrder : InOrder c published r)
    (step : ReaderStep c w r own r') : InOrder c published r' := by
  cases step with
  | note keys out stage idle rests grows quiet ok =>
    apply in_order_quiet latest inOrder (ok inOrder.ok) quiet
    rcases rests with rfl | rfl <;> simp [Stage.inHand]
  | ask k keys out idle asked grows quiet ok =>
    apply in_order_quiet latest inOrder (ok inOrder.ok) quiet
    simp [Stage.inHand, eq_comm]
  | answer k v answering =>
    exact in_order_put inOrder (by rw [answering]; rfl) (by simp [Stage.inHand])
  | wake order idle behind visits =>
    refine in_order_quiet latest inOrder ?_ rfl ?_
    · exact inOrder.ok
    · simp [Stage.inHand, eq_comm]
  | visit k v todo visiting =>
    exact in_order_put inOrder (by rw [visiting]; rfl) (by simp [Stage.inHand, eq_comm])
  | finish v visiting =>
    refine in_order_quiet latest inOrder ?_ rfl ?_
    · exact inOrder.ok
    · simp [Stage.inHand]
  | close keys =>
    refine in_order_quiet latest inOrder ?_ rfl ?_
    · exact inOrder.ok
    · simp [Stage.inHand]

/- What a reader has left to do -/

/-- The steps of its own after which a reader rests with the latest value seen. -/
def Reader.remaining (w : Watch V) (r : Reader K V O) : Nat :=
  r.stage.work + if r.receiver.seen = w.stamp then 0 else r.keys.length + 2

theorem own_step {w : Watch V} {r r' : Reader K V O} (step : ReaderStep c w r true r') :
    r.remaining w = r'.remaining w + 1 := by
  cases step with
  | answer k v answering =>
    simp only [Reader.remaining, answering, Stage.work]
    omega
  | wake order idle behind visits =>
    simp only [Reader.remaining, idle, Stage.work, if_neg behind, if_true, visits.length_eq]
    omega
  | visit k v todo visiting =>
    simp only [Reader.remaining, visiting, Stage.work, List.length_cons]
    omega
  | finish v visiting =>
    simp only [Reader.remaining, visiting, Stage.work, List.length_nil]
    omega

theorem none_remaining {w : Watch V} {r : Reader K V O} (isOpen : r.stage ≠ .closed)
    (home : r.stage ≠ .away) : r.remaining w = 0 ↔ r.stage = .idle ∧ r.receiver.UpToDate w := by
  unfold Reader.remaining
  cases stage : r.stage with
  | idle => simp [Stage.work]
  | answering k v => simp [Stage.work]
  | visiting v todo => simp [Stage.work]
  | away => exact absurd stage home
  | closed => exact absurd stage isOpen

def Reader.Due (w : Watch V) (r : Reader K V O) : Prop :=
  match r.stage with
  | .idle => ¬ r.receiver.UpToDate w
  | .answering _ _ => True
  | .visiting _ _ => True
  | .away => False
  | .closed => False

theorem due_of_remaining {w : Watch V} {r : Reader K V O} (isOpen : r.stage ≠ .closed)
    (home : r.stage ≠ .away) (left : 0 < r.remaining w) : r.Due w := by
  unfold Reader.Due
  cases stage : r.stage with
  | idle => exact fun seen => by simp [(none_remaining isOpen home).mpr ⟨stage, seen⟩] at left
  | answering k v => trivial
  | visiting v todo => trivial
  | away => exact absurd stage home
  | closed => exact absurd stage isOpen

end Readers

/- Programs with readers -/

section Programs
variable {G T A E K V O R : Type}

/-- One step of a task beside the channel: no reader's, a reader's, or the send of a
    reader that is away. -/
inductive Effect (c : Channel K V O R) (w : Watch V) :
    Option (Reader K V O) → Bool → Watch V → Option (Reader K V O) → Prop where
  | other (own : Bool) (w' : Watch V) (changes : Changes w w') : Effect c w none own w' none
  | read (r r' : Reader K V O) (own : Bool) (step : ReaderStep c w r own r') :
      Effect c w (some r) own w (some r')
  | publish (r : Reader K V O) (v : V) (away : r.stage = .away) :
      Effect c w (some r) false (w.send v) (some { r with stage := .idle })

/-- Which tasks of a program are readers of which channel, and which of their steps
    their loops take by themselves. Such a step can be taken while any is left. -/
structure Readers (p : Program G T A E) (c : Channel K V O R) where
  watch : G → Watch V
  reader : T → Option (Reader K V O)
  own : E → Bool
  spawned : ∀ g a, watch (p.spawn g a).1 = watch g ∧
    ∀ r, reader (p.spawn g a).2 = some r → Fresh c (watch g) r
  stepped : ∀ g t x g' t', p.step g t x = some (g', t') →
    Effect c (watch g) (reader t) (own x) (watch g') (reader t')
  enabled : ∀ g t r, reader t = some r → r.stage ≠ .closed → r.stage ≠ .away →
    0 < r.remaining (watch g) → ∃ x g' t', own x ∧ p.step g t x = some (g', t')

/-- Where the readers are the tasks that are streams, it is enough that a stream
    that has something to do can move. -/
theorem enabled_of_due {S : Type} {p : Program G T A E} {watch : G → Watch V} {own : E → Bool}
    {streamOf : T → Option S} {read : S → Reader K V O} (task : S → T)
    (stream_iff : ∀ t s, streamOf t = some s ↔ t = task s)
    (moves : ∀ g s, (read s).Due (watch g) → ∃ x s', own x ∧
      p.step g (task s) x = some (g, task s')) :
    ∀ g t r, (streamOf t).map read = some r → r.stage ≠ .closed → r.stage ≠ .away →
      0 < r.remaining (watch g) → ∃ x g' t', own x ∧ p.step g t x = some (g', t') := by
  intro g t r isReader isOpen home left
  obtain ⟨s, isStream, rfl⟩ := Option.map_eq_some_iff.mp isReader
  obtain ⟨x, s', takes, moved⟩ := moves g s (due_of_remaining isOpen home left)
  exact ⟨x, g, task s', takes, by rwa [(stream_iff t s).mp isStream]⟩

variable {p : Program G T A E} {c : Channel K V O R} (P : Readers p c)

def Readers.channel (s : System G T) : Watch V := P.watch s.shared

def Readers.history (s : System G T) (es : List (Event A E)) : List V :=
  publications p.next P.channel s es

def Readers.owns (i : Nat) : Event A E → Bool
  | .step j x => decide (j = i) && P.own x
  | .spawn _ => false

def Readers.Undisturbed (i : Nat) (es : List (Event A E)) : Prop :=
  ∀ x, .step i x ∈ es → P.own x

/-- Every reader has sent what follows the history, and has seen no more of it. -/
structure Readers.Following (s : System G T) (published : List V) : Prop where
  latest : EndsIn (P.channel s) published
  notAhead : ∀ t ∈ s.tasks, ∀ r, P.reader t = some r → r.receiver.seen ≤ (P.channel s).stamp
  inOrder : ∀ t ∈ s.tasks, ∀ r, P.reader t = some r → InOrder c published r

variable {P} {s s' : System G T} {es : List (Event A E)} {published : List V} {i : Nat}

theorem effect_changes {w w' : Watch V} {r r' : Option (Reader K V O)} {own : Bool}
    (effect : Effect c w r own w' r') : Changes w w' := by
  cases effect with
  | other own w' changes => exact changes
  | read r r' own step => exact Or.inl rfl
  | publish r v away => exact Or.inr ⟨v, rfl⟩

theorem next_changes {e : Event A E} (h : p.next s e = some s') :
    Changes (P.channel s) (P.channel s') := by
  rcases next_cases h with ⟨a, rfl, rfl⟩ | ⟨j, x, t, g, t', rfl, found, moved, rfl⟩
  · exact Or.inl (P.spawned s.shared a).1
  · exact effect_changes (P.stepped s.shared t x g t' moved)

theorem history_length (run : exec p.next s es = some s') :
    (P.history s es).length + (P.channel s).stamp = (P.channel s').stamp + 1 :=
  publications_length (fun _ _ _ h => next_changes h) run

theorem send_moves (w : Watch V) (v : V) : w.send v ≠ w := by
  intro same
  have stamps := congrArg Watch.stamp same
  simp [Watch.send] at stamps

theorem effect_still {w : Watch V} {r r' : Option (Reader K V O)} {own : Bool}
    (latest : EndsIn w published) (before : ∀ u, r = some u → InOrder c published u)
    {w' : Watch V} (same : w' = w) (effect : Effect c w r own w' r') :
    ∀ u, r' = some u → InOrder c published u := by
  cases effect with
  | other own w' changes => simp
  | read r r' own step =>
    rintro u ⟨⟩
    exact in_order_step latest (before r rfl) step
  | publish r v away => exact absurd same (send_moves w v)

theorem effect_sent {w : Watch V} {v : V} {r r' : Option (Reader K V O)} {own : Bool}
    (latest : EndsIn w published) (before : ∀ u, r = some u → InOrder c published u)
    {w' : Watch V} (sends : w' = w.send v) (effect : Effect c w r own w' r') :
    ∀ u, r' = some u → InOrder c (published ++ [v]) u := by
  cases effect with
  | other own w' changes => simp
  | read r r' own step => exact absurd sends.symm (send_moves w v)
  | publish r u away =>
    rintro r' ⟨⟩
    apply in_order_published
    refine in_order_quiet latest (before r rfl) ?_ rfl ?_
    · exact (before r rfl).ok
    · simp [Stage.inHand]

theorem effect_not_ahead {w w' : Watch V} {r r' : Option (Reader K V O)} {own : Bool}
    (before : ∀ u, r = some u → u.receiver.seen ≤ w.stamp) (effect : Effect c w r own w' r') :
    w.stamp ≤ w'.stamp ∧ ∀ u, r' = some u → u.receiver.seen ≤ w'.stamp := by
  cases effect with
  | other own w' changes =>
    refine ⟨?_, by simp⟩
    rcases changes with rfl | ⟨v, rfl⟩
    · exact Nat.le_refl _
    · exact Nat.le_succ _
  | read r r' own step =>
    refine ⟨Nat.le_refl _, ?_⟩
    rintro u ⟨⟩
    have seen := before r rfl
    cases step with
    | wake order idle behind visits => exact Nat.le_refl _
    | _ => exact seen
  | publish r v away =>
    refine ⟨Nat.le_succ _, ?_⟩
    rintro u ⟨⟩
    exact Nat.le_succ_of_le (before r rfl)

theorem not_ahead_next {e : Event A E} (following : P.Following s published)
    (h : p.next s e = some s') :
    ∀ t ∈ s'.tasks, ∀ r, P.reader t = some r → r.receiver.seen ≤ (P.channel s').stamp := by
  rcases next_cases h with ⟨a, rfl, rfl⟩ | ⟨j, x, t, g, t', rfl, found, moved, rfl⟩
  · obtain ⟨same, fresh⟩ := P.spawned s.shared a
    have channel : P.channel ⟨(p.spawn s.shared a).1, s.tasks ++ [(p.spawn s.shared a).2]⟩ =
        P.channel s := same
    intro u member r isReader
    rw [channel]
    rcases List.mem_append.mp member with old | new
    · exact following.notAhead u old r isReader
    · cases List.mem_singleton.mp new
      exact Nat.le_of_eq (fresh r isReader).receiver
  · obtain ⟨later, own⟩ := effect_not_ahead
      (following.notAhead t (List.mem_of_getElem? found)) (P.stepped s.shared t x g t' moved)
    intro u member r isReader
    rcases List.mem_or_eq_of_mem_set member with old | rfl
    · exact Nat.le_trans (following.notAhead u old r isReader) later
    · exact own r isReader

theorem following_still {e : Event A E} (following : P.Following s published)
    (h : p.next s e = some s') (same : P.channel s' = P.channel s) : P.Following s' published := by
  refine ⟨same ▸ following.latest, not_ahead_next following h, ?_⟩
  rcases next_cases h with ⟨a, rfl, rfl⟩ | ⟨j, x, t, g, t', rfl, found, moved, rfl⟩
  · intro u member r isReader
    rcases List.mem_append.mp member with old | new
    · exact following.inOrder u old r isReader
    · cases List.mem_singleton.mp new
      exact in_order_fresh ((P.spawned s.shared a).2 r isReader)
  · intro u member r isReader
    rcases List.mem_or_eq_of_mem_set member with old | rfl
    · exact following.inOrder u old r isReader
    · have effect := P.stepped s.shared t x g u moved
      exact effect_still following.latest
        (following.inOrder t (List.mem_of_getElem? found)) same effect r isReader

theorem following_sent {e : Event A E} {v : V} (following : P.Following s published)
    (h : p.next s e = some s') (sent : P.channel s' = (P.channel s).send v) :
    P.Following s' (published ++ [v]) := by
  constructor
  case latest =>
    rw [sent]
    exact List.getLast?_concat
  case notAhead => exact not_ahead_next following h
  case inOrder =>
    rcases next_cases h with ⟨a, rfl, rfl⟩ | ⟨j, x, t, g, t', rfl, found, moved, rfl⟩
    · have same : P.watch (p.spawn s.shared a).1 = P.watch s.shared := (P.spawned s.shared a).1
      exact absurd (sent.symm.trans same) (send_moves _ v)
    · intro u member r isReader
      rcases List.mem_or_eq_of_mem_set member with old | rfl
      · exact in_order_published (following.inOrder u old r isReader) v
      · have effect := P.stepped s.shared t x g u moved
        exact effect_sent following.latest
          (following.inOrder t (List.mem_of_getElem? found)) sent effect r isReader

/-- In any interleaving of any run from a state without readers, what every reader has
    sent follows the history of the channel. -/
theorem readers_follow (bare : ∀ t ∈ s.tasks, P.reader t = none)
    (run : exec p.next s es = some s') : P.Following s' (P.history s es) := by
  have start : P.Following s [(P.channel s).value] := by
    refine ⟨rfl, ?_, ?_⟩
    · intro t member r isReader
      simp [bare t member] at isReader
    · intro t member r isReader
      simp [bare t member] at isReader
  exact exec_published (I := P.Following)
    (fun _ _ _ _ _ before h same => following_still before h same)
    (fun _ _ _ _ _ _ before h sent => following_sent before h sent)
    (fun _ _ _ h => next_changes h) run start

theorem sent_in_order (bare : ∀ t ∈ s.tasks, P.reader t = none) (run : exec p.next s es = some s')
    {t : T} {r : Reader K V O} (found : s'.tasks[i]? = some t) (isReader : P.reader t = some r) :
    InOrder c (P.history s es) r :=
  (readers_follow bare run).inOrder t (List.mem_of_getElem? found) r isReader

/- Catching up -/

def Readers.Left (P : Readers p c) (i n : Nat) (s : System G T) : Prop :=
  ∃ t r, s.tasks[i]? = some t ∧ P.reader t = some r ∧ r.stage ≠ .closed ∧ r.stage ≠ .away ∧
    r.remaining (P.channel s) = n

theorem own_step_home {w : Watch V} {r r' : Reader K V O} (step : ReaderStep c w r true r') :
    r'.stage ≠ .closed ∧ r'.stage ≠ .away := by
  cases step <;> simp

theorem left_step {n : Nat} {x : E} (left : P.Left i n s) (own : P.own x)
    (h : p.next s (.step i x) = some s') :
    P.channel s' = P.channel s ∧ ∃ m, n = m + 1 ∧ P.Left i m s' := by
  obtain ⟨t, r, found, isReader, isOpen, home, count⟩ := left
  rcases next_cases h with ⟨a, eq, _⟩ | ⟨j, y, u, g, t', eq, found', moved, rfl⟩
  · cases eq
  · cases eq
    cases found.symm.trans found'
    have effect := P.stepped s.shared t x g t' moved
    rw [isReader, own] at effect
    generalize watch' : P.watch g = w' at effect
    generalize reader' : P.reader t' = r? at effect
    cases effect with
    | read r r' own step =>
      have fewer := own_step step
      obtain ⟨isOpen', home'⟩ := own_step_home step
      refine ⟨watch', r'.remaining (P.channel s), count.symm.trans fewer, t', r', ?_, reader',
        isOpen', home', congrArg (fun w => r'.remaining w) watch'⟩
      rw [List.getElem?_set_self (List.getElem?_eq_some_iff.mp found).1]

theorem left_other {n : Nat} {e : Event A E} (left : P.Left i n s) (other : ∀ x, e ≠ .step i x)
    (h : p.next s e = some s') (same : P.channel s' = P.channel s) : P.Left i n s' := by
  obtain ⟨t, r, found, isReader, isOpen, home, count⟩ := left
  refine ⟨t, r, ?_, isReader, isOpen, home, same ▸ count⟩
  have one : exec p.next s [e] = some s' := exec_cons_some.mpr ⟨s', h, rfl⟩
  apply task_untouched ?_ one found
  intro x member
  exact other x (List.mem_singleton.mp member).symm

/-- A run that sends nothing takes exactly as many own steps of a reader as the reader
    then has fewer left. -/
theorem left_run {n : Nat} (left : P.Left i n s) (own : P.Undisturbed i es)
    (run : exec p.next s es = some s') (still : (P.channel s').stamp = (P.channel s).stamp) :
    P.channel s' = P.channel s ∧ ∃ m, n = m + es.countP (P.owns i) ∧ P.Left i m s' := by
  induction es generalizing s n with
  | nil =>
    cases Option.some.inj run
    exact ⟨rfl, n, rfl, left⟩
  | cons e es ih =>
    obtain ⟨t, first, rest⟩ := exec_cons_some.mp run
    have changes : ∀ s e t, p.next s e = some t → Changes (P.channel s) (P.channel t) :=
      fun _ _ _ h => next_changes h
    have same : P.channel t = P.channel s := still_first changes first rest still
    have later : P.Undisturbed i es := fun x member => own x (List.mem_cons_of_mem e member)
    have still' : (P.channel s').stamp = (P.channel t).stamp := by rw [still, same]
    rw [List.countP_cons]
    by_cases mine : ∃ x, e = .step i x
    · obtain ⟨x, rfl⟩ := mine
      have takes : P.own x := own x List.mem_cons_self
      obtain ⟨_, k, eq, left'⟩ := left_step left takes first
      obtain ⟨same', m, eq', left''⟩ := ih left' later rest still'
      refine ⟨same'.trans same, m, ?_, left''⟩
      simp only [Readers.owns, decide_true, takes, Bool.and_self, if_true]
      omega
    · have others : ∀ x, e ≠ .step i x := fun x eq => mine ⟨x, eq⟩
      obtain ⟨same', m, eq', left''⟩ := ih (left_other left others first same) later rest still'
      have notOwned : P.owns i e = false := by
        cases e with
        | spawn a => rfl
        | step j x =>
          have different : j ≠ i := by
            rintro rfl
            exact others x rfl
          simp [Readers.owns, different]
      refine ⟨same'.trans same, m, ?_, left''⟩
      simp only [notOwned, Bool.false_eq_true, if_false]
      omega

def Readers.CaughtUp (P : Readers p c) (i : Nat) (s : System G T) : Prop :=
  ∃ t r, s.tasks[i]? = some t ∧ P.reader t = some r ∧ r.stage = .idle ∧
    r.receiver.UpToDate (P.channel s)

theorem left_none_iff {n : Nat} (left : P.Left i n s) : n = 0 ↔ P.CaughtUp i s := by
  obtain ⟨t, r, found, isReader, isOpen, home, rfl⟩ := left
  rw [none_remaining isOpen home]
  constructor
  · rintro ⟨idle, seen⟩
    exact ⟨t, r, found, isReader, idle, seen⟩
  · rintro ⟨u, q, found', isReader', idle, seen⟩
    cases found.symm.trans found'
    cases isReader.symm.trans isReader'
    exact ⟨idle, seen⟩

/-- While nothing is sent a reader takes no more own steps than it had left, and it has
    caught up just when it has taken them all. -/
theorem caught_up_iff {n : Nat} (left : P.Left i n s) (own : P.Undisturbed i es)
    (run : exec p.next s es = some s') (still : (P.channel s').stamp = (P.channel s).stamp) :
    es.countP (P.owns i) ≤ n ∧ (es.countP (P.owns i) = n ↔ P.CaughtUp i s') := by
  obtain ⟨_, m, count, left'⟩ := left_run left own run still
  rw [← left_none_iff left']
  omega

/-- From any state the steps that are left can all be taken, one after another. -/
theorem catches_up {n : Nat} (left : P.Left i n s) :
    ∃ (xs : List E) (s' : System G T), xs.length = n ∧ (∀ x ∈ xs, P.own x) ∧
      exec p.next s (xs.map (.step i)) = some s' ∧ P.channel s' = P.channel s ∧
      P.CaughtUp i s' := by
  induction n generalizing s with
  | zero => exact ⟨[], s, rfl, by simp, rfl, rfl, (left_none_iff left).mp rfl⟩
  | succ n ih =>
    obtain ⟨t, r, found, isReader, isOpen, home, count⟩ := id left
    obtain ⟨x, g, t', own, moved⟩ :=
      P.enabled s.shared t r isReader isOpen home (count ▸ Nat.succ_pos n)
    have first := next_step found moved
    obtain ⟨same, m, eq, left'⟩ := left_step left own first
    cases Nat.succ.inj eq
    obtain ⟨xs, s', length, allOwn, run, same', done⟩ := ih left'
    refine ⟨x :: xs, s', by rw [List.length_cons, length], ?_, ?_, same'.trans same, done⟩
    · intro y member
      rcases List.mem_cons.mp member with rfl | inRest
      · exact own
      · exact allOwn y inRest
    · exact exec_cons_some.mpr ⟨_, first, run⟩

/-- What a reader reaches by catching up. Say that `Current` holds just when it has caught
    up, after runs that are `Quiet`: that send nothing and say nothing new to it. Then it
    takes no more own steps in such a run than it had left, it is current just when it has
    taken them all, and it can always take them. -/
theorem reaches_current {n : Nat} (left : P.Left i n s)
    (Quiet : List (Event A E) → System G T → Prop) (Current : List (Event A E) → System G T → Prop)
    (still : ∀ fs u, exec p.next s fs = some u → Quiet fs u →
      (P.channel u).stamp = (P.channel s).stamp)
    (alone : ∀ (xs : List E) u, (∀ x ∈ xs, P.own x) → P.channel u = P.channel s →
      Quiet (xs.map (.step i)) u)
    (current : ∀ fs u, exec p.next s fs = some u → P.Undisturbed i fs → Quiet fs u →
      (P.CaughtUp i u ↔ Current fs u)) :
    (∀ fs u, exec p.next s fs = some u → Quiet fs u → P.Undisturbed i fs →
      fs.countP (P.owns i) ≤ n ∧ (fs.countP (P.owns i) = n ↔ Current fs u)) ∧
    ∃ (xs : List E) (u : System G T), xs.length = n ∧
      exec p.next s (xs.map (.step i)) = some u ∧ Current (xs.map (.step i)) u := by
  constructor
  · intro fs u run quiet own
    rw [← current fs u run own quiet]
    exact caught_up_iff left own run (still fs u run quiet)
  · obtain ⟨xs, u, length, own, run, same, caught⟩ := catches_up left
    have undisturbed : P.Undisturbed i (xs.map (Event.step (A := A) i)) := by
      intro x member
      exact own x (mem_steps.mp member).2
    exact ⟨xs, u, length, run, (current _ u run undisturbed (alone xs u own same)).mp caught⟩

/- Streams -/

structure Streams (P : Readers p c) (S : Type) where
  task : S → T
  streamOf : T → Option S
  read : S → Reader K V O
  reads : ∀ t, P.reader t = (streamOf t).map read
  stream_iff : ∀ t s, streamOf t = some s ↔ t = task s

variable {S : Type} (F : Streams P S)

theorem reads_task (σ : S) : P.reader (F.task σ) = some (F.read σ) := by
  rw [F.reads, (F.stream_iff _ σ).mpr rfl, Option.map_some]

theorem left_at {σ : S} (found : s.tasks[i]? = some (F.task σ))
    (isOpen : (F.read σ).stage ≠ .closed) (home : (F.read σ).stage ≠ .away) :
    P.Left i ((F.read σ).remaining (P.channel s)) s :=
  ⟨F.task σ, F.read σ, found, reads_task F σ, isOpen, home, rfl⟩

theorem caught_up_at : P.CaughtUp i s ↔ ∃ σ, s.tasks[i]? = some (F.task σ) ∧
    (F.read σ).stage = .idle ∧ (F.read σ).receiver.UpToDate (P.channel s) := by
  constructor
  · rintro ⟨t, r, found, isReader, idle, seen⟩
    rw [F.reads] at isReader
    obtain ⟨σ, isStream, rfl⟩ := Option.map_eq_some_iff.mp isReader
    exact ⟨σ, (F.stream_iff t σ).mp isStream ▸ found, idle, seen⟩
  · rintro ⟨σ, found, idle, seen⟩
    exact ⟨F.task σ, F.read σ, found, reads_task F σ, idle, seen⟩

end Programs

end WatchReaders
