import Mathlib

/-!
Two cells that concurrent tasks share. A `Watch` keeps one value and counts its
sends; a receiver remembers the count it last looked at, so any number of sends
it slept through is one change to it. A wrapping 64-bit counter hands out
numbers; the numbers of fewer than 2^64 successive calls are distinct.
-/
namespace SharedCells

section Watching
variable {V : Type}

structure Watch (V : Type) where
  value : V
  stamp : Nat
  deriving DecidableEq, Repr

structure Receiver where
  seen : Nat
  deriving DecidableEq, Repr

def Watch.channel (v : V) : Watch V := ⟨v, 0⟩

/-- Every send counts as a change, also of a value equal to the old one. -/
def Watch.send (w : Watch V) (v : V) : Watch V := ⟨v, w.stamp + 1⟩

/-- A new receiver has seen the value current when it subscribes. -/
def Watch.subscribe (w : Watch V) : Receiver := ⟨w.stamp⟩

def Watch.borrow (w : Watch V) : V := w.value

/-- The latest value, and the receiver marked as having seen it. -/
def Watch.borrowAndUpdate (w : Watch V) : V × Receiver := (w.value, ⟨w.stamp⟩)

abbrev Receiver.UpToDate (r : Receiver) (w : Watch V) : Prop := r.seen = w.stamp

/-- What is known of a reader that has acted on every value it has seen. While
    a change is pending nothing is promised, and the receiver is never ahead. -/
structure Settled (w : Watch V) (r : Receiver) (Q : V → Prop) : Prop where
  notAhead : r.seen ≤ w.stamp
  settled : r.UpToDate w → Q w.value

@[simp] theorem send_value (w : Watch V) (v : V) : (w.send v).value = v := rfl

@[simp] theorem subscribe_up_to_date (w : Watch V) : w.subscribe.UpToDate w := rfl

@[simp] theorem borrow_and_update_up_to_date (w : Watch V) :
    w.borrowAndUpdate.2.UpToDate w := rfl

theorem settled_now {w : Watch V} {r : Receiver} {Q : V → Prop} (seen : r.UpToDate w)
    (holds : Q w.value) : Settled w r Q :=
  ⟨Nat.le_of_eq seen, fun _ => holds⟩

theorem settled_send {w : Watch V} {r : Receiver} {Q Q' : V → Prop} (before : Settled w r Q)
    (v : V) : Settled (w.send v) r Q' := by
  have h := before.notAhead
  refine ⟨?_, fun seen => ?_⟩
  · simp only [Watch.send]; omega
  · simp only [Receiver.UpToDate, Watch.send] at seen; omega

theorem settled_imp {w : Watch V} {r : Receiver} {Q Q' : V → Prop} (before : Settled w r Q)
    (weaker : r.UpToDate w → Q w.value → Q' w.value) : Settled w r Q' :=
  ⟨before.notAhead, fun seen => weaker seen (before.settled seen)⟩

end Watching

section Numbering
variable {X N : Type}

/-- `fetch_add(1) + 1` on a 64-bit counter: the number handed out, which is
    also what the counter holds afterwards. -/
def fetchAddOne (counter : UInt64) : UInt64 := counter + 1

theorem fetch_add_one_of_count (k : Nat) :
    fetchAddOne (UInt64.ofNat k) = UInt64.ofNat (k + 1) := by
  simp [fetchAddOne, UInt64.ofNat_add]

theorem number_injective {j k : Nat} (hj : j < 2 ^ 64) (hk : k < 2 ^ 64)
    (same : UInt64.ofNat (j + 1) = UInt64.ofNat (k + 1)) : j = k := by
  have h := congrArg UInt64.toNat same
  simp only [UInt64.toNat_ofNat'] at h
  omega

/-- The k-th item issued carries the number k + 1. -/
def Numbered (label : X → N) (name : UInt64 → N) (issued : List X) : Prop :=
  ∀ k x, issued[k]? = some x → label x = name (UInt64.ofNat (k + 1))

theorem numbered_append {label : X → N} {name : UInt64 → N} {issued : List X} {x : X}
    (before : Numbered label name issued)
    (next : label x = name (UInt64.ofNat (issued.length + 1))) :
    Numbered label name (issued ++ [x]) := by
  intro k y found
  rcases Nat.lt_trichotomy k issued.length with less | same | more
  · exact before k y (by rwa [List.getElem?_append_left less] at found)
  · subst same
    simp only [List.getElem?_concat_length, Option.some.injEq] at found
    exact found ▸ next
  · rw [List.getElem?_eq_none (by simp; omega)] at found
    contradiction

/-- While the counter has not come round, a label stands for one item only. -/
theorem numbered_unique {label : X → N} {name : UInt64 → N} {issued : List X}
    (injective : Function.Injective name) (numbered : Numbered label name issued)
    (few : issued.length ≤ 2 ^ 64) {x y : X} (hx : x ∈ issued) (hy : y ∈ issued)
    (same : label x = label y) : x = y := by
  obtain ⟨j, foundX⟩ := List.mem_iff_getElem?.mp hx
  obtain ⟨k, foundY⟩ := List.mem_iff_getElem?.mp hy
  have jBound := (List.getElem?_eq_some_iff.mp foundX).1
  have kBound := (List.getElem?_eq_some_iff.mp foundY).1
  rw [numbered j x foundX, numbered k y foundY] at same
  have index : j = k := number_injective (by omega) (by omega) (injective same)
  subst index
  exact Option.some.inj (foundX.symm.trans foundY)

end Numbering

end SharedCells
