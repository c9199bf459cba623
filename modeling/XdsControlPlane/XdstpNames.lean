import XdsControlPlane.DeltaStream

/-!
Chapter 5's resource names, `snapshot.rs`: `xdstp://{authority}/{proto}/{id}`, and
the collections that a name ending in `*` stands for. A slash ends the authority
and another the type, so a prefix that reaches past a slash fixes what is before
it; a prefix that only shares some letters, as `Cluster` does with
`ClusterLoadAssignment`, never reaches one.
-/
namespace XdstpNames
open KeyedMaps EnvoyMessages DeltaSnapshots DeltaStream

/- Names -/

/-- `trim_start_matches`: the pattern is taken off as often as it is there. No
    more than one removal for each character can be needed. -/
def trimChars (pattern : List Char) : Nat → List Char → List Char
  | 0, cs => cs
  | n + 1, cs =>
    if pattern.isPrefixOf cs then trimChars pattern n (cs.drop pattern.length) else cs

def trimStartMatches (s pattern : String) : String :=
  String.ofList (trimChars pattern.toList s.toList.length s.toList)

def proto (typeUrl : String) : String := trimStartMatches typeUrl "type.googleapis.com/"

def xdstp (authority typeUrl id : String) : String :=
  "xdstp://" ++ authority ++ "/" ++ proto typeUrl ++ "/" ++ id

def only (name : String) : TypeSub := ⟨false, HashSet.empty.insert name⟩

def SlashFree (s : String) : Prop := '/' ∉ s.toList

instance (s : String) : Decidable (SlashFree s) := inferInstanceAs (Decidable ('/' ∉ s.toList))

example : xdstp "edge" tCluster "upstream" =
    "xdstp://edge/envoy.config.cluster.v3.Cluster/upstream" := by decide

/- Segments of a list that a separator ends -/

section Segments
variable {A : Type} {x : A} {p q r s : List A}

theorem segment_inj (inP : x ∉ p) (inQ : x ∉ q) (same : p ++ x :: r = q ++ x :: s) :
    p = q ∧ r = s := by
  induction p generalizing q with
  | nil =>
    cases q with
    | nil => exact ⟨rfl, (List.cons.inj same).2⟩
    | cons y q => exact absurd ((List.cons.inj same).1 ▸ List.mem_cons_self) inQ
  | cons z p ih =>
    cases q with
    | nil => exact absurd ((List.cons.inj same).1 ▸ List.mem_cons_self) inP
    | cons y q =>
      simp only [List.cons_append, List.cons.injEq] at same
      simp only [List.mem_cons, not_or] at inP inQ
      obtain ⟨front, back⟩ := ih inP.2 inQ.2 same.2
      exact ⟨by rw [same.1, front], back⟩

/-- A prefix that reaches past the separator has the whole segment before it. -/
theorem segment_of_start (inP : x ∉ p) (inQ : x ∉ q) (starts : p ++ x :: r <+: q ++ x :: s) :
    p = q ∧ r <+: s := by
  obtain ⟨rest, same⟩ := starts
  rw [List.append_assoc, List.cons_append] at same
  obtain ⟨front, back⟩ := segment_inj inP inQ same
  exact ⟨front, rest, back⟩

/-- What is left of a list that goes on after the separator when its last element,
    another one, is taken off. -/
theorem before_last {y : A} (other : x ≠ y) (same : p ++ x :: r = q ++ [y]) :
    ∃ r', q = p ++ x :: r' := by
  rcases List.eq_nil_or_concat' r with rfl | ⟨r', z, rfl⟩
  · have last := (List.append_inj' same rfl).2
    exact absurd (List.cons.inj last).1 other
  · rw [← List.cons_append, ← List.append_assoc] at same
    exact ⟨r', (List.append_inj' same rfl).1.symm⟩

end Segments

/- One authority, one collection -/

section Isolation
variable {a b t u : String}

theorem xdstp_chars (authority typeUrl id : String) : (xdstp authority typeUrl id).toList =
    "xdstp://".toList ++
      (authority.toList ++ '/' :: ((proto typeUrl).toList ++ '/' :: id.toList)) := by
  simp [xdstp]

theorem xdstp_injective (authorityA : SlashFree a) (authorityB : SlashFree b)
    (typeT : SlashFree (proto t)) (typeU : SlashFree (proto u)) {i j : String}
    (same : xdstp a t i = xdstp b u j) : a = b ∧ proto t = proto u ∧ i = j := by
  have chars := congrArg String.toList same
  rw [xdstp_chars, xdstp_chars, List.append_cancel_left_eq] at chars
  obtain ⟨authority, rest⟩ := segment_inj authorityA authorityB chars
  obtain ⟨type, id⟩ := segment_inj typeT typeU rest
  exact ⟨String.toList_inj.mp authority, String.toList_inj.mp type, String.toList_inj.mp id⟩

theorem in_collection_iff (authorityA : SlashFree a) (authorityB : SlashFree b)
    (typeT : SlashFree (proto t)) (typeU : SlashFree (proto u)) (j : String) :
    startsWith (xdstp b u j) (xdstp a t "") ↔ a = b ∧ proto t = proto u := by
  rw [startsWith, List.isPrefixOf_iff_prefix, xdstp_chars, xdstp_chars, List.prefix_append_right_inj]
  constructor
  · intro starts
    obtain ⟨authority, rest⟩ := segment_of_start authorityA authorityB starts
    obtain ⟨type, _⟩ := segment_of_start typeT typeU rest
    exact ⟨String.toList_inj.mp authority, String.toList_inj.mp type⟩
  · rintro ⟨rfl, type⟩
    rw [type, List.prefix_append_right_inj, List.cons_prefix_cons, List.prefix_append_right_inj,
      List.cons_prefix_cons]
    exact ⟨rfl, rfl, List.nil_prefix⟩

theorem strip_star_append (s : String) : stripStar (s ++ "*") = some s := by
  simp [stripStar]

theorem strip_star_some {s start : String} (stripped : stripStar s = some start) :
    s = start ++ "*" := by
  unfold stripStar at stripped
  split at stripped
  · rename_i rest reversed
    cases stripped
    apply String.toList_inj.mp
    rw [String.toList_append, String.toList_ofList, ← List.reverse_reverse s.toList, reversed,
      List.reverse_cons]
    rfl
  · contradiction

theorem only_matches (name n : String) : (only name).matches n ↔
    (∃ start, stripStar name = some start ∧ startsWith n start) ∨
      (stripStar name = none ∧ name = n) := by
  simp only [only, TypeSub.matches, HashSet.insert, HashSet.empty, Bool.false_or]
  cases stripped : stripStar name with
  | none => simp [stripped]
  | some start => simp [stripped]

theorem glob_stripped (a t : String) : stripStar (xdstp a t "*") = some (xdstp a t "") := by
  have glob : xdstp a t "*" = xdstp a t "" ++ "*" := by
    simp only [xdstp, String.append_assoc, String.empty_append]
  rw [glob, strip_star_append]

theorem expanded_iff (authorityA : SlashFree a) (authorityB : SlashFree b)
    (typeT : SlashFree (proto t)) (typeU : SlashFree (proto u)) (j : String) {snap : Snapshot}
    {typeUrl : String} (held : (snap.get typeUrl (xdstp b u j)).isSome) :
    xdstp b u j ∈ snap.namesWithPrefix typeUrl (xdstp a t "") ↔ a = b ∧ proto t = proto u := by
  rw [mem_prefixed_names, and_iff_right held]
  exact in_collection_iff authorityA authorityB typeT typeU j

theorem glob_matches_iff (authorityA : SlashFree a) (authorityB : SlashFree b)
    (typeT : SlashFree (proto t)) (typeU : SlashFree (proto u)) (j : String) :
    (only (xdstp a t "*")).matches (xdstp b u j) ↔ a = b ∧ proto t = proto u := by
  rw [only_matches, ← in_collection_iff authorityA authorityB typeT typeU j]
  simp [glob_stripped]

/-- Whatever follows the authority's slash in a subscription, a star at the end
    included, the authority is read up to that slash. -/
theorem match_under_authority (authorityA : SlashFree a) (authorityB : SlashFree b) {r j : String}
    (matched : (only ("xdstp://" ++ a ++ "/" ++ r)).matches (xdstp b u j)) : a = b := by
  have chars : ("xdstp://" ++ a ++ "/" ++ r).toList =
      "xdstp://".toList ++ (a.toList ++ '/' :: r.toList) := by simp
  have starts : ∃ rest, "xdstp://".toList ++ (a.toList ++ '/' :: rest) <+: (xdstp b u j).toList := by
    rcases (only_matches _ _).mp matched with ⟨start, stripped, starts⟩ | ⟨_, same⟩
    · have whole := congrArg String.toList (strip_star_some stripped)
      rw [chars, String.toList_append, ← List.append_assoc] at whole
      obtain ⟨rest, cut⟩ := before_last (by decide) whole
      rw [startsWith, List.isPrefixOf_iff_prefix, cut, List.append_assoc] at starts
      exact ⟨rest, starts⟩
    · rw [← same, chars]
      exact ⟨r.toList, List.prefix_rfl⟩
  obtain ⟨rest, starts⟩ := starts
  rw [xdstp_chars, List.prefix_append_right_inj] at starts
  exact String.toList_inj.mp (segment_of_start authorityA authorityB starts).1

/-- Names of different resources differ, a collection is exactly the names of its
    authority and type, and nothing under one authority reaches another. -/
theorem xdstp_isolates (authorityA : SlashFree a) (authorityB : SlashFree b)
    (typeT : SlashFree (proto t)) (typeU : SlashFree (proto u)) (i j : String) :
    (xdstp a t i = xdstp b u j → a = b ∧ proto t = proto u ∧ i = j) ∧
    ((only (xdstp a t "*")).matches (xdstp b u j) ↔ a = b ∧ proto t = proto u) ∧
    (∃ start, stripStar (xdstp a t "*") = some start ∧ ∀ (snap : Snapshot) typeUrl,
      (snap.get typeUrl (xdstp b u j)).isSome →
        (xdstp b u j ∈ snap.namesWithPrefix typeUrl start ↔ a = b ∧ proto t = proto u)) ∧
    ∀ r, (only ("xdstp://" ++ a ++ "/" ++ r)).matches (xdstp b u j) → a = b := by
  refine ⟨xdstp_injective authorityA authorityB typeT typeU,
    glob_matches_iff authorityA authorityB typeT typeU j, ?_, ?_⟩
  · refine ⟨xdstp a t "", glob_stripped a t, ?_⟩
    intro snap typeUrl held
    exact expanded_iff authorityA authorityB typeT typeU j held
  · intro r matched
    exact match_under_authority authorityA authorityB matched

/-- `Cluster` begins `ClusterLoadAssignment`, yet its collection has no endpoints. -/
theorem xdstp_isolates_clusters :
    (only (xdstp "edge" tCluster "*")).matches (xdstp "edge" tCluster "upstream") ∧
    ¬ (only (xdstp "edge" tCluster "*")).matches (xdstp "edge" tEndpoint "upstream") := by
  have edge : SlashFree "edge" := by decide
  have cluster : SlashFree (proto tCluster) := by decide
  have endpoint : SlashFree (proto tEndpoint) := by decide
  constructor
  · exact (xdstp_isolates edge edge cluster cluster "*" "upstream").2.1.mpr ⟨rfl, rfl⟩
  · intro matched
    have same := ((xdstp_isolates edge edge cluster endpoint "*" "upstream").2.1.mp matched).2
    exact absurd same (by decide)

end Isolation

end XdstpNames
