import Mathlib

/-!
Resources that refer to one another by key. A client starts from some roots and asks
for whatever the resources it was given refer to. When nothing is left to ask it has
asked for all that can be reached from the roots; and what one reads off by following
references is the same in any two stores that agree, in what their resources refer to
and yield, on what can be reached.
-/
namespace ResourceGraphs

structure RefGraph (K E : Type) where
  get : K → Option E
  refs : E → List K
  root : K → Prop

section Reaching
variable {K E : Type} {g : RefGraph K E}

inductive RefGraph.Reachable (g : RefGraph K E) : K → Prop where
  | root {k : K} (isRoot : g.root k) : g.Reachable k
  | ref {j k : K} {e : E} (before : g.Reachable j) (held : g.get j = some e) (named : k ∈ g.refs e) :
      g.Reachable k

theorem reachable_least {P : K → Prop} (roots : ∀ k, g.root k → P k)
    (refs : ∀ j e, P j → g.get j = some e → ∀ k ∈ g.refs e, P k) {k : K} (reachable : g.Reachable k) :
    P k := by
  induction reachable with
  | root isRoot => exact roots _ isRoot
  | ref before held named ih => exact refs _ _ ih held _ named

/- Asking for what one was told of -/

/-- A client that was given what it asked for, or something with the same references,
    and has nothing left to ask. -/
structure RefGraph.Explored (g : RefGraph K E) (asked : K → Prop) (held : K → Option E) : Prop where
  given : ∀ k, asked k → (held k).map g.refs = (g.get k).map g.refs
  roots : ∀ k, g.root k → asked k
  refs : ∀ j e, held j = some e → ∀ k ∈ g.refs e, asked k

theorem reachable_asked {asked : K → Prop} {held : K → Option E} (explored : g.Explored asked held)
    {k : K} (reachable : g.Reachable k) : asked k := by
  apply reachable_least explored.roots ?_ reachable
  intro j e askedJ atJ k named
  have same := explored.given j askedJ
  rw [atJ, Option.map_some] at same
  obtain ⟨e', atJ', refs⟩ := Option.map_eq_some_iff.mp same
  exact explored.refs j e' atJ' k (refs ▸ named)

end Reaching

/- Following references -/

section Following
variable {K E A : Type}

/-- All that the resources on the way yield, in the order of the references, no deeper
    than `depth`. -/
def collect (get : K → Option E) (refs : E → List K) (yields : E → List A) : Nat → K → List A
  | 0, _ => []
  | depth + 1, k =>
    match get k with
    | none => []
    | some e => yields e ++ (refs e).flatMap (collect get refs yields depth)

theorem collect_some {get : K → Option E} {refs : E → List K} {yields : E → List A} {k : K} {e : E}
    (held : get k = some e) (depth : Nat) : collect get refs yields (depth + 1) k =
      yields e ++ (refs e).flatMap (collect get refs yields depth) := by
  simp only [collect, held]

/-- Stores whose resources refer to and yield the same, as far as they can be reached,
    yield the same along all references. -/
theorem collect_agrees {g : RefGraph K E} {held : K → Option E} {yields : E → List A}
    (agree : ∀ k, g.Reachable k →
      (held k).map (fun e => (g.refs e, yields e)) = (g.get k).map fun e => (g.refs e, yields e))
    (depth : Nat) {k : K} (reachable : g.Reachable k) :
    collect held g.refs yields depth k = collect g.get g.refs yields depth k := by
  induction depth generalizing k with
  | zero => rfl
  | succ depth ih =>
    have same := agree k reachable
    cases atK : g.get k with
    | none =>
      rw [atK, Option.map_none, Option.map_eq_none_iff] at same
      simp only [collect, same, atK]
    | some e =>
      rw [atK, Option.map_some] at same
      obtain ⟨e', heldK, eq⟩ := Option.map_eq_some_iff.mp same
      obtain ⟨refs, yield⟩ := Prod.mk.inj eq
      rw [collect_some heldK, collect_some atK, refs, yield]
      congr 1
      apply List.flatMap_congr
      intro j named
      exact ih (.ref reachable atK named)

end Following

end ResourceGraphs
