import XdsControlPlane.KeyedMaps

/-!
Bringing a replica up to date by sending differences. The sender keeps a ledger
of the label (a version) under which it last sent each name, compares it with
the target, and sends only what differs; the replica applies every difference.
Names outside `want` are not compared at all. Whether a skipped name is really
current is a question about labels, which is where every hypothesis below sits.
-/
namespace IncrementalSync
open KeyedMaps
variable {N E B : Type} [DecidableEq N]

structure Delta (N E : Type) where
  upserts : List (N × E)
  removals : List N

def Delta.apply (d : Delta N E) (m : N → Option E) : N → Option E :=
  dropAll (storeAll m d.upserts) d.removals

def Delta.relabel (d : Delta N E) (label : E → B) : Delta N B :=
  ⟨d.upserts.map fun u => (u.1, label u.2), d.removals⟩

/-- `d` holds exactly the wanted names whose ledger label is not the target's:
    those the target has are sent, those it no longer has are removed. -/
structure Delta.Bridges (d : Delta N E) (want : N → Prop) (target : N → Option E)
    (label : E → B) (ledger : N → Option B) : Prop where
  upserts : ∀ n e, (n, e) ∈ d.upserts ↔
    want n ∧ target n = some e ∧ ledger n ≠ some (label e)
  removals : ∀ n, n ∈ d.removals ↔ want n ∧ target n = none ∧ ledger n ≠ none
  distinct : (d.upserts.map Prod.fst).Nodup

section Apply
variable {d : Delta N E} {want : N → Prop} {target : N → Option E} {label : E → B}
  {ledger : N → Option B}

omit [DecidableEq N] in
theorem upsert_name (b : d.Bridges want target label ledger) {n : N}
    (named : n ∈ d.upserts.map Prod.fst) :
    ∃ e, (n, e) ∈ d.upserts ∧ want n ∧ target n = some e ∧ ledger n ≠ some (label e) := by
  obtain ⟨⟨n', e⟩, member, rfl⟩ := List.mem_map.mp named
  exact ⟨e, member, (b.upserts n' e).mp member⟩

theorem apply_untouched {n : N} (unsent : n ∉ d.upserts.map Prod.fst) (kept : n ∉ d.removals)
    (m : N → Option E) : d.apply m n = m n := by
  simp only [Delta.apply, dropAll_eq, kept, ↓reduceIte, storeAll_absent unsent]

/-- A name that the difference mentions ends up the same everywhere. -/
theorem apply_mentioned (distinct : (d.upserts.map Prod.fst).Nodup) {n : N}
    (mentioned : n ∈ d.upserts.map Prod.fst ∨ n ∈ d.removals) (m m' : N → Option E) :
    d.apply m n = d.apply m' n := by
  simp only [Delta.apply, dropAll_eq]
  split
  · rfl
  · rename_i kept
    obtain ⟨⟨k, e⟩, member, rfl⟩ := List.mem_map.mp (mentioned.resolve_right kept)
    rw [storeAll_present distinct member, storeAll_present distinct member]

theorem apply_unwanted (b : d.Bridges want target label ledger) {n : N} (unwanted : ¬ want n)
    (m : N → Option E) : d.apply m n = m n := by
  apply apply_untouched
  · intro named
    obtain ⟨_, _, wanted, _⟩ := upsert_name b named
    exact unwanted wanted
  · intro removed
    exact unwanted ((b.removals n).mp removed).1

theorem apply_current (b : d.Bridges want target label ledger) {n : N}
    (current : ledger n = (target n).map label) (m : N → Option E) : d.apply m n = m n := by
  apply apply_untouched
  · intro named
    obtain ⟨e, _, _, held, stale⟩ := upsert_name b named
    exact stale (by rw [current, held, Option.map_some])
  · intro removed
    obtain ⟨_, gone, known⟩ := (b.removals n).mp removed
    exact known (by rw [current, gone, Option.map_none])

/-- Any other wanted name becomes the target's, whatever the replica had. -/
theorem apply_stale (b : d.Bridges want target label ledger) {n : N} (wanted : want n)
    (stale : ledger n ≠ (target n).map label) (m : N → Option E) : d.apply m n = target n := by
  cases held : target n with
  | some e =>
    rw [held, Option.map_some] at stale
    have sent : (n, e) ∈ d.upserts := (b.upserts n e).mpr ⟨wanted, held, stale⟩
    have kept : n ∉ d.removals := fun removed => by
      simp [((b.removals n).mp removed).2.1] at held
    simp only [Delta.apply, dropAll_eq, kept, ↓reduceIte, storeAll_present b.distinct sent]
  | none =>
    rw [held, Option.map_none] at stale
    have removed : n ∈ d.removals := (b.removals n).mpr ⟨wanted, held, stale⟩
    simp only [Delta.apply, dropAll_eq, removed, ↓reduceIte]

/-- A replica that agrees with the ledger becomes the target wherever a label
    stands for one content. -/
theorem apply_wanted (b : d.Bridges want target label ledger) {n : N} (wanted : want n)
    {m : N → Option E} (agrees : ledger n = (m n).map label)
    (oneContent : ∀ e e', m n = some e → target n = some e' → label e = label e' → e = e') :
    d.apply m n = target n := by
  by_cases current : ledger n = (target n).map label
  · rw [apply_current b current]
    rw [agrees] at current
    cases here : m n with
    | none =>
      have gone : target n = none := by simpa [here] using current
      exact gone.symm
    | some e =>
      cases there : target n with
      | none => simp [here, there] at current
      | some e' =>
        simp only [here, there, Option.map_some, Option.some.injEq] at current
        rw [oneContent e e' here there current]
  · exact apply_stale b wanted current m

omit [DecidableEq N] in
theorem relabel_names (d : Delta N E) (label : E → B) :
    (d.relabel label).upserts.map Prod.fst = d.upserts.map Prod.fst := by
  simp only [Delta.relabel, List.map_map, Function.comp_def]

theorem apply_relabel (d : Delta N E) (label : E → B) (m : N → Option E) (n : N) :
    (d.relabel label).apply (fun k => (m k).map label) n = (d.apply m n).map label := by
  have stores : ∀ (us : List (N × E)) (f : N → Option E),
      storeAll (fun k => (f k).map label) (us.map fun u => (u.1, label u.2)) n =
        (storeAll f us n).map label := by
    intro us
    induction us with
    | nil => intro f; rfl
    | cons u us ih =>
      intro f
      have step := ih fun j => if j = u.1 then some u.2 else f j
      simp only [apply_ite (Option.map label), Option.map_some] at step
      exact step
  simp only [Delta.apply, Delta.relabel, dropAll_eq, stores]
  split <;> rfl

/-- The sender's own bookkeeping afterwards: the target on every wanted name,
    untouched on every other. -/
theorem ledger_wanted (b : d.Bridges want target label ledger) {n : N} (wanted : want n) :
    (d.relabel label).apply ledger n = (target n).map label := by
  have relabelled : (d.relabel label).Bridges want (fun k => (target k).map label) id ledger := by
    refine ⟨fun k l => ?_, fun k => ?_, relabel_names d label ▸ b.distinct⟩
    · simp only [Delta.relabel, List.mem_map, Prod.mk.injEq, Option.map_eq_some_iff, id]
      constructor
      · rintro ⟨⟨k', e⟩, member, rfl, rfl⟩
        have h := (b.upserts k' e).mp member
        exact ⟨h.1, ⟨e, h.2.1, rfl⟩, h.2.2⟩
      · rintro ⟨wantK, ⟨e, held, rfl⟩, stale⟩
        exact ⟨(k, e), (b.upserts k e).mpr ⟨wantK, held, stale⟩, rfl, rfl⟩
    · simp only [Delta.relabel, b.removals k, Option.map_eq_none_iff]
  by_cases current : ledger n = (target n).map label
  · rw [apply_current relabelled (by simpa using current), current]
  · exact apply_stale relabelled wanted (by simpa using current) ledger

theorem ledger_unwanted (b : d.Bridges want target label ledger) {n : N} (unwanted : ¬ want n) :
    (d.relabel label).apply ledger n = ledger n := by
  apply apply_untouched
  · intro named
    obtain ⟨_, _, wanted, _⟩ := upsert_name b (relabel_names d label ▸ named)
    exact unwanted wanted
  · intro removed
    exact unwanted ((b.removals n).mp removed).1

end Apply

end IncrementalSync
