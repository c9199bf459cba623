import XdsControlPlane.ExecutableRuns

/-!
Runs that come to an end. A number that every step makes smaller bounds the length of
a run; for a system of tasks it is a sum with one term for each task, and a step
changes one task and leaves the terms of the others no larger.
-/
namespace RunPotentials
open ExecutableRuns

section Runs
variable {S E : Type} {step : S → E → Option S}

theorem run_length_le {I : S → Prop} {ok : S → E → Prop} {potential : S → Nat}
    (kept : ∀ s e t, I s → ok s e → step s e = some t → I t)
    (spends : ∀ s e t, I s → ok s e → step s e = some t → potential t + 1 ≤ potential s)
    {s t : S} {es : List E} (run : exec step s es = some t) (along : Along step ok s es)
    (initial : I s) : es.length + potential t ≤ potential s := by
  induction es generalizing s with
  | nil =>
    cases Option.some.inj run
    simp
  | cons e es ih =>
    obtain ⟨mid, first, rest⟩ := exec_cons_some.mp run
    obtain ⟨allowed, later⟩ := along mid first
    have one := spends s e mid initial allowed first
    have more := ih rest later (kept s e mid initial allowed first)
    rw [List.length_cons]
    omega

end Runs

section Sums
variable {T : Type} {f g : T → Nat}

/-- One entry gives `d`, and no other one gains. -/
theorem sum_set_le {ts : List T} {i : Nat} {t t' : T} {d : Nat} (others : ∀ u ∈ ts, g u ≤ f u)
    (found : ts[i]? = some t) (own : g t' + d ≤ f t) :
    ((ts.set i t').map g).sum + d ≤ (ts.map f).sum := by
  induction ts generalizing i with
  | nil => simp at found
  | cons u us ih =>
    have later : ∀ v ∈ us, g v ≤ f v := fun v member => others v (List.mem_cons_of_mem u member)
    cases i with
    | zero =>
      have head : u = t := by simpa using found
      have rest := List.sum_le_sum later
      rw [List.set_cons_zero, List.map_cons, List.sum_cons, List.map_cons, List.sum_cons, head]
      omega
    | succ i =>
      have rest := ih later (by simpa using found)
      have first := others u List.mem_cons_self
      rw [List.set_cons_succ, List.map_cons, List.sum_cons, List.map_cons, List.sum_cons]
      omega

end Sums

end RunPotentials
