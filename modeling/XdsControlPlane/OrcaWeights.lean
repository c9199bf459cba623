import XdsControlPlane.OrcaServer

/-!
ORCA reports taken one after another. A reading that hardly moved is dropped and
the recorded one kept, so what is recorded is compared with what was reported
last: the two are never a threshold apart, because each report is measured
against the record itself. Clamping brings readings no further apart and
rounding adds less than one, so no weight is off by more than one unit.
-/
namespace OrcaWeights
open ExecutableRuns SharedCells KeyedMaps EnvoyMessages SotwSnapshots OrcaServer

/- From a reading to a weight -/

/-- The weight of a reading before it is made a `u32` of at least 1. -/
def exactWeight (util : ℚ) : Int := roundAway (1000 * (1 - clamp util 0 (99 / 100)))

theorem clamp_bounds (u : ℚ) : 0 ≤ clamp u 0 (99 / 100) ∧ clamp u 0 (99 / 100) ≤ 99 / 100 := by
  unfold clamp
  split
  · norm_num
  · split <;> constructor <;> linarith

theorem clamp_close {p u d : ℚ} (close : |p - u| < d) :
    |clamp p 0 (99 / 100) - clamp u 0 (99 / 100)| < d := by
  have apart := abs_lt.mp close
  unfold clamp
  rw [abs_lt]
  split_ifs <;> constructor <;> linarith

theorem floor_close {x y : ℚ} (close : |x - y| < 1) : |⌊x⌋ - ⌊y⌋| ≤ 1 := by
  have apart := abs_lt.mp close
  have xLow := Int.floor_le x
  have xHigh := Int.lt_floor_add_one x
  have yLow := Int.floor_le y
  have yHigh := Int.lt_floor_add_one y
  have up : (⌊x⌋ : ℚ) < ⌊y⌋ + 2 := by linarith
  have down : (⌊y⌋ : ℚ) < ⌊x⌋ + 2 := by linarith
  have up' : ⌊x⌋ < ⌊y⌋ + 2 := by exact_mod_cast up
  have down' : ⌊y⌋ < ⌊x⌋ + 2 := by exact_mod_cast down
  rw [abs_le]
  omega

theorem exact_weight_floor (u : ℚ) :
    exactWeight u = ⌊1000 * (1 - clamp u 0 (99 / 100)) + 1 / 2⌋ := by
  have bounds := clamp_bounds u
  unfold exactWeight roundAway
  rw [if_pos (by linarith)]

theorem exact_weight_bounds (u : ℚ) : 10 ≤ exactWeight u ∧ exactWeight u ≤ 1000 := by
  have bounds := clamp_bounds u
  rw [exact_weight_floor]
  constructor
  · apply Int.le_floor.mpr
    push_cast
    linarith
  · apply Int.lt_add_one_iff.mp
    apply Int.floor_lt.mpr
    push_cast
    linarith

theorem exact_weight_close {p u : ℚ} (close : |p - u| < 1 / 1000) :
    |exactWeight p - exactWeight u| ≤ 1 := by
  have apart := abs_lt.mp (clamp_close close)
  rw [exact_weight_floor, exact_weight_floor]
  apply floor_close
  rw [abs_lt]
  constructor <;> linarith

/-- Neither the saturating cast nor the floor of 1 is ever reached. -/
theorem weight_from_util_exact (u : ℚ) : (weightFromUtil u : Int) = exactWeight u := by
  have bounds := exact_weight_bounds u
  have scaled : roundAway ((1 - clamp u 0 (99 / 100)) * 1000) = exactWeight u := by
    rw [exactWeight, mul_comm]
  unfold weightFromUtil
  simp only [scaled, asU32]
  omega

/- Calls in sequence -/

def observeAll (w : Control) (calls : List (String × ℚ)) : Control :=
  calls.foldl (fun w c => observe w c.1 c.2) w

/-- The reading that a host reported last, moved or not; 0.5 before the first. -/
def lastReport (calls : List (String × ℚ)) (host : String) : ℚ :=
  calls.foldl (fun last c => if c.1 = host then c.2 else last) (1 / 2)

theorem last_report_append (calls : List (String × ℚ)) (host : String) (u : ℚ) (h : String) :
    lastReport (calls ++ [(host, u)]) h = if host = h then u else lastReport calls h := by
  simp only [lastReport, List.foldl_append, List.foldl_cons, List.foldl_nil]

theorem moved_iff {util : HashMap String ℚ} {host : String} {u : ℚ} : moved util host u ↔
    util.lookup host = none ∨ ∃ p, util.lookup host = some p ∧ 1 / 1000 ≤ |p - u| := by
  unfold moved
  cases util.lookup host with
  | none => simp
  | some p => simp

theorem util_of_insert (util : HashMap String ℚ) (host : String) (u : ℚ) (h : String) :
    utilOf (util.insert host u) h = if h = host then u else utilOf util h := by
  unfold utilOf entryOr
  rw [lookup_insert]
  split <;> rfl

theorem observe_moved {w : Control} {host : String} {u : ℚ} (new : moved w.util host u) :
    observe w host u = recomputeAndPush { w with util := w.util.insert host u } := if_pos new

theorem observe_unmoved {w : Control} {host : String} {u : ℚ} (same : ¬ moved w.util host u) :
    observe w host u = w := if_neg same

/-- After `calls` the recorded readings stand for the last ones, and what is
    advertised was computed from them and carries the number of its send. -/
structure Tracks (backends : List (String × String)) (calls : List (String × ℚ)) (w : Control) :
    Prop where
  backends : w.backends = backends
  recorded : ∀ h, |utilOf w.util h - lastReport calls h| < 1 / 1000
  advertised : w.advertised.value =
    build (versionLabel w.version) (recompute w.backends w.util)
  counted : w.version = UInt64.ofNat (w.advertised.stamp + 1)
  few : w.advertised.stamp ≤ calls.length

theorem startup_tracks (backends : List (String × String)) :
    Tracks backends [] (startup backends) := by
  constructor
  case backends => rfl
  case recorded =>
    intro h
    simp [startup, utilOf, entryOr, lastReport]
  case advertised =>
    have label : versionLabel 1 = "v1" := by decide
    simp only [startup, Watch.channel, label]
    rfl
  case counted => rfl
  case few => exact Nat.le_refl 0

theorem observe_tracks {backends : List (String × String)} {calls : List (String × ℚ)}
    {w : Control} (tracks : Tracks backends calls w) (host : String) (u : ℚ) :
    Tracks backends (calls ++ [(host, u)]) (observe w host u) := by
  have few := tracks.few
  by_cases new : moved w.util host u
  · rw [observe_moved new]
    constructor
    case backends => exact tracks.backends
    case recorded =>
      intro h
      simp only [recomputeAndPush, util_of_insert, last_report_append, eq_comm (a := host)]
      split
      · norm_num
      · exact tracks.recorded h
    case advertised => rfl
    case counted =>
      simp only [recomputeAndPush, tracks.counted, fetch_add_one_of_count, Watch.send]
    case few =>
      simp only [recomputeAndPush, Watch.send, List.length_append, List.length_singleton]
      omega
  · rw [observe_unmoved new]
    constructor
    case backends => exact tracks.backends
    case recorded =>
      intro h
      rw [last_report_append]
      split
      · rename_i named
        subst named
        -- the record was kept because the report is close to it
        rw [moved_iff, not_or] at new
        obtain ⟨p, held⟩ := Option.ne_none_iff_exists'.mp new.1
        rw [utilOf, entryOr, held, Option.getD_some]
        exact not_le.mp fun apart => new.2 ⟨p, held, apart⟩
      · exact tracks.recorded h
    case advertised => exact tracks.advertised
    case counted => exact tracks.counted
    case few =>
      rw [List.length_append]
      omega

theorem observe_all_append (w : Control) (calls more : List (String × ℚ)) :
    observeAll w (calls ++ more) = observeAll (observeAll w calls) more := by
  simp only [observeAll, List.foldl_append]

theorem observe_all_tracks (backends : List (String × String)) (calls : List (String × ℚ)) :
    Tracks backends calls (observeAll (startup backends) calls) := by
  induction calls using List.reverseRecOn with
  | nil => exact startup_tracks backends
  | append_singleton calls c ih =>
    rw [observe_all_append]
    exact observe_tracks ih c.1 c.2

/- What is advertised, and when -/

theorem observe_stamp (w : Control) (host : String) (u : ℚ) :
    (observe w host u).advertised.stamp =
      w.advertised.stamp + if moved w.util host u then 1 else 0 := by
  unfold observe
  split <;> rfl

theorem observe_all_stamp (w : Control) (calls : List (String × ℚ)) :
    w.advertised.stamp ≤ (observeAll w calls).advertised.stamp := by
  induction calls generalizing w with
  | nil => exact Nat.le_refl _
  | cons c calls ih =>
    have one := observe_stamp w c.1 c.2
    have rest := ih (observe w c.1 c.2)
    simp only [observeAll, List.foldl_cons] at rest ⊢
    omega

/-- Calls one after another are a run of the server: no other client steps in between. -/
theorem observe_all_run {backends : List (String × String)} {calls : List (String × ℚ)}
    (own : ∀ c ∈ calls, c.1 ∈ backends.map Prod.fst) :
    ∃ es, exec server.next (start backends) es =
      some ⟨observeAll (startup backends) calls, (start backends).tasks⟩ := by
  induction calls using List.reverseRecOn with
  | nil => exact ⟨[], rfl⟩
  | append_singleton calls c ih =>
    obtain ⟨es, run⟩ := ih fun d earlier => own d (List.mem_append_left [c] earlier)
    have named := own c (List.mem_append_right calls List.mem_cons_self)
    obtain ⟨b, inBackends, host⟩ := List.mem_map.mp named
    have started : (⟨b.1, .idle⟩ : OrcaClient) ∈ (start backends).tasks :=
      List.mem_map.mpr ⟨b, inBackends, rfl⟩
    obtain ⟨i, found⟩ := List.mem_iff_getElem?.mp started
    have reached : (⟨observeAll (startup backends) calls, (start backends).tasks⟩ : State).tasks[i]? =
        some ⟨b.1, .idle⟩ := found
    have next := observe_uninterrupted reached rfl c.2
    rw [host] at next
    refine ⟨_, exec_append_some.mpr ⟨_, run, next.trans ?_⟩⟩
    rw [observe_all_append]
    rfl

/-- An advertised endpoint has its backend's address and a weight within one unit
    of what the backend's last report asks for. -/
def Weighs (calls : List (String × ℚ)) (entry : String × Option Nat) (b : String × String) : Prop :=
  entry.1 = b.2 ∧ ∃ weight, entry.2 = some weight ∧ 10 ≤ weight ∧ weight ≤ 1000 ∧
    |(weight : Int) - roundAway (1000 * (1 - clamp (lastReport calls b.1) 0 (99 / 100)))| ≤ 1

theorem weighs_recorded {calls : List (String × ℚ)} {util : HashMap String ℚ}
    {b : String × String} (recorded : |utilOf util b.1 - lastReport calls b.1| < 1 / 1000) :
    Weighs calls (b.2, some (weightFromUtil (utilOf util b.1))) b := by
  have bounds := exact_weight_bounds (utilOf util b.1)
  have close := exact_weight_close recorded
  rw [← weight_from_util_exact (utilOf util b.1)] at bounds close
  exact ⟨rfl, _, rfl, by omega, by omega, close⟩

theorem advertised_weighs (backends : List (String × String)) (calls : List (String × ℚ)) :
    List.Forall₂ (Weighs calls)
      (edsWeights (observeAll (startup backends) calls).advertised.value) backends := by
  have tracks := observe_all_tracks backends calls
  rw [tracks.advertised, eds_weights_build, recompute, tracks.backends, List.map_map,
    List.forall₂_map_left_iff, List.forall₂_same]
  intro b _
  exact weighs_recorded (tracks.recorded b.1)

theorem version_fresh {backends : List (String × String)} {calls more : List (String × ℚ)}
    {w w' : Control} (before : Tracks backends calls w) (after : Tracks backends more w')
    (few : more.length < 2 ^ 64) (later : w.advertised.stamp < w'.advertised.stamp) :
    w.advertised.value.version ≠ w'.advertised.value.version := by
  intro same
  have bound := after.few
  rw [before.advertised, after.advertised] at same
  have number := version_label_injective same
  rw [before.counted, after.counted] at number
  have := number_injective (by omega) (by omega) number
  omega

/-- For every list of backends and reports: the advertised weights are within one
    unit of the last reports' however many were dropped, and a call publishes,
    under a version no send had before, just when its reading moved. -/
theorem weights_track_reports (backends : List (String × String)) (calls : List (String × ℚ))
    (few : calls.length < 2 ^ 64) :
    List.Forall₂ (Weighs calls)
      (edsWeights (observeAll (startup backends) calls).advertised.value) backends ∧
    ∀ done host u later, calls = done ++ (host, u) :: later →
      let before := observeAll (startup backends) done
      let after := observe before host u
      (after.advertised.stamp ≠ before.advertised.stamp ↔ before.util.lookup host = none ∨
        ∃ p, before.util.lookup host = some p ∧ 1 / 1000 ≤ |p - u|) ∧
      (after.advertised.stamp ≠ before.advertised.stamp → ∀ earlier, earlier <+: done →
        (observeAll (startup backends) earlier).advertised.value.version ≠
          after.advertised.value.version) := by
  refine ⟨advertised_weighs backends calls, ?_⟩
  intro done host u later split before after
  have stamp : after.advertised.stamp = _ := observe_stamp before host u
  constructor
  · rw [← moved_iff, stamp]
    by_cases new : moved before.util host u
    · simp [new]
    · simp [new]
  · intro published earlier start
    obtain ⟨rest, rfl⟩ := start
    have tracks := observe_tracks (observe_all_tracks backends (earlier ++ rest)) host u
    have mono := observe_all_stamp (observeAll (startup backends) earlier) rest
    rw [← observe_all_append] at mono
    apply version_fresh (observe_all_tracks backends earlier) tracks
    · rw [split] at few
      simp only [List.length_append, List.length_cons, List.length_nil] at few ⊢
      omega
    · change _ < after.advertised.stamp
      change _ ≤ before.advertised.stamp at mono
      split at stamp <;> omega

def driftingReports : List (String × ℚ) :=
  [("upstream-a", 9 / 10), ("upstream-b", 2), ("upstream-a", 9005 / 10000)]

theorem weights_track_drifting_reports :
    edsWeights (observeAll (startup demoBackends) driftingReports).advertised.value =
      [("10.0.0.1", some 100), ("10.0.0.2", some 10)] ∧
    List.Forall₂ (Weighs driftingReports)
      (edsWeights (observeAll (startup demoBackends) driftingReports).advertised.value)
      demoBackends := by
  constructor
  · decide +kernel
  · exact (weights_track_reports demoBackends driftingReports (by decide)).1

end OrcaWeights
