import XdsControlPlane.ExecutableRuns
import XdsControlPlane.SharedCells

/-!
Calls that take a number from a shared counter and publish under it later. Among
a list of tasks some are such calls; the rank of one is how many took their
number before it, and fixes the number. What has been published is one of the
numbers given out, and the next publication is higher just when its call comes
after all those that have published.
-/
namespace NumberedCalls
open ExecutableRuns SharedCells

/- Ranks -/

variable {N : Type}

/-- A call under way holds the name it is going to publish under. -/
inductive Call (N : Type) where
  | holding : N → Call N
  | done : Call N
  deriving DecidableEq, Repr

def marks (cs : List (Option (Call N))) : List Bool := cs.map Option.isSome

def rank (cs : List (Option (Call N))) (i : Nat) : Nat := ((marks cs).take i).countP id

def total (cs : List (Option (Call N))) : Nat := (marks cs).countP id

section Ranks
variable {cs : List (Option (Call N))} {i j : Nat} {c : Call N}

theorem marks_append (cs : List (Option (Call N))) (c : Option (Call N)) :
    marks (cs ++ [c]) = marks cs ++ [c.isSome] := by
  simp only [marks, List.map_append, List.map_cons, List.map_nil]

theorem total_append (cs : List (Option (Call N))) (c : Option (Call N)) :
    total (cs ++ [c]) = total cs + if c.isSome then 1 else 0 := by
  unfold total
  rw [marks_append, List.countP_append]
  cases c <;> rfl

theorem rank_append (c : Option (Call N)) (inside : i ≤ cs.length) :
    rank (cs ++ [c]) i = rank cs i := by
  unfold rank
  rw [marks_append, List.take_append_of_le_length]
  simpa only [marks, List.length_map] using inside

theorem rank_length (cs : List (Option (Call N))) (c : Option (Call N)) :
    rank (cs ++ [c]) cs.length = total cs := by
  rw [rank_append c (Nat.le_refl _), rank, total, List.take_of_length_le]
  simp only [marks, List.length_map, Nat.le_refl]

theorem marks_set (found : cs[i]? = some (some c)) (c' : Call N) :
    marks (cs.set i (some c')) = marks cs := by
  obtain ⟨inside, held⟩ := List.getElem?_eq_some_iff.mp found
  unfold marks
  rw [List.map_set]
  apply List.ext_getElem?
  intro j
  rw [List.getElem?_set]
  split
  · rename_i same
    subst same
    simp [inside, held]
  · rfl

theorem rank_set (found : cs[i]? = some (some c)) (c' : Call N) (j : Nat) :
    rank (cs.set i (some c')) j = rank cs j := by
  rw [rank, marks_set found, rank]

theorem total_set (found : cs[i]? = some (some c)) (c' : Call N) :
    total (cs.set i (some c')) = total cs := by
  rw [total, marks_set found, total]

theorem rank_succ (found : cs[i]? = some (some c)) : rank cs (i + 1) = rank cs i + 1 := by
  have marked : (marks cs)[i]? = some true := by
    simp only [marks, List.getElem?_map, found, Option.map_some, Option.isSome_some]
  unfold rank
  rw [List.take_add_one, marked, List.countP_append]
  rfl

theorem rank_mono (below : i ≤ j) : rank cs i ≤ rank cs j := by
  unfold rank
  apply List.IsPrefix.countP_le
  exact List.take_prefix_take_left below

theorem rank_lt (found : cs[i]? = some (some c)) (below : i < j) : rank cs i < rank cs j := by
  have next := rank_succ found
  have rest : rank cs (i + 1) ≤ rank cs j := rank_mono below
  omega

theorem rank_lt_total (found : cs[i]? = some (some c)) : rank cs i < total cs := by
  have next := rank_succ found
  have all : rank cs (i + 1) ≤ total cs := (List.take_prefix _ _).countP_le
  omega

theorem last_call (called : 0 < total cs) :
    ∃ i c, cs[i]? = some (some c) ∧ rank cs i + 1 = total cs := by
  induction cs using List.reverseRecOn with
  | nil => simp [total, marks] at called
  | append_singleton cs c ih =>
    cases c with
    | some d =>
      refine ⟨cs.length, d, List.getElem?_concat_length, ?_⟩
      rw [rank_length, total_append, Option.isSome_some, if_pos rfl]
    | none =>
      have before : total (cs ++ [none]) = total cs := total_append cs none
      rw [before] at called ⊢
      obtain ⟨i, d, found, last⟩ := ih called
      have inside := (List.getElem?_eq_some_iff.mp found).1
      refine ⟨i, d, ?_, ?_⟩
      · rwa [List.getElem?_append_left inside]
      · rwa [rank_append _ (Nat.le_of_lt inside)]

end Ranks

/- Numbers -/

/-- The counter has been moved once by each call, from 1 on, and each call that
    has not published yet holds the name of the number it was given. -/
structure Numbering (name : UInt64 → N) (counter : UInt64) (cs : List (Option (Call N))) :
    Prop where
  counter : counter = UInt64.ofNat (total cs + 1)
  held : ∀ i v, cs[i]? = some (some (.holding v)) → v = name (UInt64.ofNat (rank cs i + 2))

/-- Number `k` is the initial one, or that of a call that has published. -/
def Spent (cs : List (Option (Call N))) (k : Nat) : Prop :=
  k = 1 ∨ ∃ i, cs[i]? = some (some .done) ∧ k = rank cs i + 2

/-- Of the numbers published so far, `k` is the highest. -/
structure Latest (cs : List (Option (Call N))) (k : Nat) : Prop where
  spent : Spent cs k
  highest : ∀ i, cs[i]? = some (some .done) → rank cs i + 2 ≤ k

def Older (name : UInt64 → N) (v v' : N) : Prop :=
  ∃ m n : UInt64, v = name m ∧ v' = name n ∧ m < n

theorem older_iff {name : UInt64 → N} (injective : Function.Injective name) (m n : UInt64) :
    Older name (name m) (name n) ↔ m < n := by
  constructor
  · rintro ⟨a, b, sameM, sameN, less⟩
    rwa [injective sameM, injective sameN]
  · intro less
    exact ⟨m, n, rfl, rfl, less⟩

section Steps
variable {name : UInt64 → N} {counter : UInt64} {cs : List (Option (Call N))} {i k : Nat} {v : N}

theorem numbering_start (name : UInt64 → N) : Numbering name 1 [] := by
  constructor
  case counter => rfl
  case held =>
    intro i v found
    simp at found

theorem getElem?_append_call {c : Option (Call N)} {d : Call N}
    (found : (cs ++ [c])[i]? = some (some d)) :
    cs[i]? = some (some d) ∨ (i = cs.length ∧ c = some d) := by
  rcases getElem?_append_one found with old | ⟨last, same⟩
  · exact Or.inl old
  · exact Or.inr ⟨last, same.symm⟩

theorem numbering_join (numbering : Numbering name counter cs) :
    Numbering name (fetchAddOne counter)
      (cs ++ [some (.holding (name (fetchAddOne counter)))]) := by
  have next : fetchAddOne counter = UInt64.ofNat (total cs + 2) := by
    rw [numbering.counter, fetch_add_one_of_count]
  constructor
  case counter => rw [total_append, next, Option.isSome_some, if_pos rfl]
  case held =>
    intro i v found
    rcases getElem?_append_call found with old | ⟨rfl, same⟩
    · have inside := (List.getElem?_eq_some_iff.mp old).1
      rw [rank_append _ (Nat.le_of_lt inside)]
      exact numbering.held i v old
    · cases same
      rw [rank_length, next]

theorem numbering_beside (numbering : Numbering name counter cs) :
    Numbering name counter (cs ++ [none]) := by
  constructor
  case counter => rw [total_append, numbering.counter]; rfl
  case held =>
    intro i v found
    have old := getElem?_append_other found (by simp)
    have inside := (List.getElem?_eq_some_iff.mp old).1
    rw [rank_append _ (Nat.le_of_lt inside)]
    exact numbering.held i v old

theorem numbering_publish (numbering : Numbering name counter cs)
    (holding : cs[i]? = some (some (.holding v))) :
    Numbering name counter (cs.set i (some .done)) := by
  constructor
  case counter => rw [total_set holding, numbering.counter]
  case held =>
    intro j w found
    rw [rank_set holding]
    exact numbering.held j w (getElem?_set_other found (by simp))

theorem spent_append (spent : Spent cs k) (c : Option (Call N)) : Spent (cs ++ [c]) k := by
  rcases spent with initial | ⟨i, done, rfl⟩
  · exact Or.inl initial
  · have inside := (List.getElem?_eq_some_iff.mp done).1
    refine Or.inr ⟨i, ?_, ?_⟩
    · rwa [List.getElem?_append_left inside]
    · rw [rank_append c (Nat.le_of_lt inside)]

theorem spent_publish (spent : Spent cs k) (holding : cs[i]? = some (some (.holding v))) :
    Spent (cs.set i (some .done)) k := by
  rcases spent with initial | ⟨j, done, rfl⟩
  · exact Or.inl initial
  · have other : i ≠ j := by
      rintro rfl
      simp [holding] at done
    refine Or.inr ⟨j, ?_, ?_⟩
    · rwa [List.getElem?_set_ne other]
    · rw [rank_set holding]

theorem spent_own (holding : cs[i]? = some (some (.holding v))) :
    Spent (cs.set i (some .done)) (rank cs i + 2) := by
  refine Or.inr ⟨i, ?_, ?_⟩
  · rw [List.getElem?_set_self (List.getElem?_eq_some_iff.mp holding).1]
  · rw [rank_set holding]

theorem spent_bound (spent : Spent cs k) : 1 ≤ k ∧ k ≤ total cs + 1 := by
  rcases spent with rfl | ⟨i, done, rfl⟩
  · omega
  · have := rank_lt_total done
    omega

theorem held_not_spent (injective : Function.Injective name)
    (numbering : Numbering name counter cs) (few : total cs < 2 ^ 64) (spent : Spent cs k)
    (holding : cs[i]? = some (some (.holding v))) : v ≠ name (UInt64.ofNat k) := by
  intro same
  rw [numbering.held i v holding] at same
  have inside := rank_lt_total holding
  have bound := spent_bound spent
  have index : rank cs i + 1 = k - 1 := by
    apply number_injective (by omega) (by omega)
    rw [Nat.sub_add_cancel bound.1]
    exact injective same
  rcases spent with rfl | ⟨j, done, rfl⟩
  · omega
  · -- two calls of one rank are one call, which cannot both hold and be done
    rcases Nat.lt_trichotomy i j with less | rfl | more
    · have := rank_lt holding less
      omega
    · simp [holding] at done
    · have := rank_lt done more
      omega

theorem latest_start : Latest ([] : List (Option (Call N))) 1 := by
  constructor
  case spent => exact Or.inl rfl
  case highest =>
    intro i done
    simp at done

theorem latest_append (latest : Latest cs k) {c : Option (Call N)} (unfinished : c ≠ some .done) :
    Latest (cs ++ [c]) k := by
  constructor
  case spent => exact spent_append latest.spent c
  case highest =>
    intro i done
    have old := getElem?_append_other done fun same => unfinished same.symm
    have inside := (List.getElem?_eq_some_iff.mp old).1
    rw [rank_append c (Nat.le_of_lt inside)]
    exact latest.highest i old

/-- A call's number is higher than the current one when no call that took its
    number later has published, unless the number has come round to 0. -/
theorem rank_higher_iff (few : total cs < 2 ^ 64) (latest : Latest cs k) (exactly : k < 2 ^ 64)
    (holding : cs[i]? = some (some (.holding v))) :
    UInt64.ofNat k < UInt64.ofNat (rank cs i + 2) ↔
      rank cs i + 2 < 2 ^ 64 ∧ ∀ j, i < j → cs[j]? ≠ some (some .done) := by
  have inside := rank_lt_total holding
  have current : (UInt64.ofNat k).toNat = k := UInt64.toNat_ofNat_of_lt' exactly
  rw [UInt64.lt_iff_toNat_lt, current, UInt64.toNat_ofNat']
  constructor
  · intro higher
    have unwrapped : rank cs i + 2 < 2 ^ 64 := by
      by_contra wrapped
      have whole : rank cs i + 2 = 2 ^ 64 := by omega
      rw [whole, Nat.mod_self] at higher
      exact Nat.not_lt_zero k higher
    refine ⟨unwrapped, ?_⟩
    intro j later done
    have above := latest.highest j done
    have ranks := rank_lt holding later
    rw [Nat.mod_eq_of_lt unwrapped] at higher
    omega
  · rintro ⟨unwrapped, inOrder⟩
    rw [Nat.mod_eq_of_lt unwrapped]
    rcases latest.spent with rfl | ⟨j, done, rfl⟩
    · omega
    · rcases Nat.lt_trichotomy i j with less | rfl | more
      · exact absurd done (inOrder j less)
      · simp [holding] at done
      · have := rank_lt done more
        omega

theorem held_zero_iff (injective : Function.Injective name)
    (numbering : Numbering name counter cs) (few : total cs < 2 ^ 64)
    (holding : cs[i]? = some (some (.holding v))) : v ≠ name 0 ↔ rank cs i + 2 < 2 ^ 64 := by
  have inside := rank_lt_total holding
  rw [numbering.held i v holding, injective.ne_iff, ne_eq, ← UInt64.toNat_inj,
    UInt64.toNat_ofNat', UInt64.toNat_zero]
  omega

theorem publishes_newer_iff (injective : Function.Injective name)
    (numbering : Numbering name counter cs) (few : total cs < 2 ^ 64) (latest : Latest cs k)
    (exactly : k < 2 ^ 64) (holding : cs[i]? = some (some (.holding v))) :
    Older name (name (UInt64.ofNat k)) v ↔
      v ≠ name 0 ∧ ∀ j, i < j → cs[j]? ≠ some (some .done) := by
  have higher := rank_higher_iff few latest exactly holding
  rw [← held_zero_iff injective numbering few holding] at higher
  rw [← higher, numbering.held i v holding, older_iff injective]

theorem latest_publish (few : total cs < 2 ^ 64) (latest : Latest cs k) (exactly : k < 2 ^ 64)
    (holding : cs[i]? = some (some (.holding v)))
    (higher : UInt64.ofNat k < UInt64.ofNat (rank cs i + 2)) :
    Latest (cs.set i (some .done)) (rank cs i + 2) ∧ rank cs i + 2 < 2 ^ 64 := by
  obtain ⟨unwrapped, inOrder⟩ := (rank_higher_iff few latest exactly holding).mp higher
  refine ⟨?_, unwrapped⟩
  constructor
  case spent => exact spent_own holding
  case highest =>
    intro j done
    rw [rank_set holding]
    rcases getElem?_set_cases done with ⟨rfl, _⟩ | ⟨other, old⟩
    · exact Nat.le_refl _
    · have notLater : ¬ i < j := fun later => inOrder j later old
      have := rank_lt old (j := i) (by omega)
      omega

/-- With every call done, the highest number published is the last handed out. -/
theorem quiet_latest (numbering : Numbering name counter cs) (latest : Latest cs k)
    (exactly : k < 2 ^ 64) (quiet : ∀ (i : Nat) v, cs[i]? ≠ some (some (.holding v))) :
    UInt64.ofNat k = counter ∧ counter.toNat = total cs + 1 := by
  have whole : k = total cs + 1 := by
    have bound := spent_bound latest.spent
    rcases Nat.eq_zero_or_pos (total cs) with none_ | called
    · omega
    · obtain ⟨i, c, found, last⟩ := last_call called
      cases c with
      | holding v => exact absurd found (quiet i v)
      | done =>
        have := latest.highest i found
        omega
  rw [numbering.counter, ← whole]
  exact ⟨rfl, UInt64.toNat_ofNat_of_lt' exactly⟩

end Steps

end NumberedCalls
