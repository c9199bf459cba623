import Mathlib

/-!
Finite keyed containers. A hash map is an association list with distinct keys,
a hash set a list with distinct elements; both carry that fact. The order of
either list stands for the unspecified iteration order of the container, so
results about them speak of lookups and membership, never of positions.
-/
namespace KeyedMaps
variable {K V : Type}

abbrev HashMap (K V : Type) := AList fun _ : K => V

structure HashSet (K : Type) where
  elems : List K
  nodup : elems.Nodup
  deriving DecidableEq, Repr

instance : Membership K (HashSet K) := ⟨fun s k => k ∈ s.elems⟩

def HashSet.empty : HashSet K := ⟨[], List.nodup_nil⟩

instance : Inhabited (HashSet K) := ⟨HashSet.empty⟩

@[simp] theorem not_mem_empty (k : K) : k ∉ (HashSet.empty : HashSet K) := List.not_mem_nil

/-- The entries of a map in its iteration order. -/
def pairs (m : HashMap K V) : List (K × V) := m.entries.map fun e => (e.1, e.2)

theorem pairs_keys (m : HashMap K V) : (pairs m).map Prod.fst = m.keys := by
  simp only [pairs, List.map_map, AList.keys, List.keys, Function.comp_def]

variable [DecidableEq K]

instance (k : K) (s : HashSet K) : Decidable (k ∈ s) := inferInstanceAs (Decidable (k ∈ s.elems))

def HashSet.insert (s : HashSet K) (k : K) : HashSet K := ⟨s.elems.insert k, s.nodup.insert⟩

def HashSet.remove (s : HashSet K) (k : K) : HashSet K := ⟨s.elems.erase k, s.nodup.erase k⟩

@[simp] theorem mem_insert {s : HashSet K} {j k : K} : j ∈ s.insert k ↔ j = k ∨ j ∈ s :=
  List.mem_insert_iff

@[simp] theorem mem_remove {s : HashSet K} {j k : K} : j ∈ s.remove k ↔ j ≠ k ∧ j ∈ s :=
  s.nodup.mem_erase_iff

/-- `entry(k).or_default()`, read. -/
def entryOr (m : HashMap K V) (k : K) (d : V) : V := (m.lookup k).getD d

/-- `entry(k).or_default()`, for its effect on the map. -/
def orDefault (m : HashMap K V) (k : K) (d : V) : HashMap K V :=
  match m.lookup k with
  | some _ => m
  | none => m.insert k d

def insertAll (m : HashMap K V) (kvs : List (K × V)) : HashMap K V :=
  kvs.foldl (fun m kv => m.insert kv.1 kv.2) m

def eraseAll (m : HashMap K V) (ks : List K) : HashMap K V :=
  ks.foldl (fun m k => m.erase k) m

theorem lookup_insert (m : HashMap K V) (j k : K) (v : V) :
    (m.insert k v).lookup j = if j = k then some v else m.lookup j := by
  split
  · rename_i same
    rw [same, AList.lookup_insert]
  · rename_i different
    exact AList.lookup_insert_ne different

theorem lookup_erase (m : HashMap K V) (j k : K) :
    (m.erase k).lookup j = if j = k then none else m.lookup j := by
  split
  · rename_i same
    rw [same, AList.lookup_erase]
  · rename_i different
    exact AList.lookup_erase_ne different

theorem lookup_orDefault (m : HashMap K V) (j k : K) (d : V) :
    (orDefault m k d).lookup j = if j = k then some (entryOr m k d) else m.lookup j := by
  unfold orDefault entryOr
  cases held : m.lookup k with
  | some v =>
    by_cases same : j = k
    · subst same
      simp only [held, if_pos, Option.getD_some]
    · simp only [same, if_false]
  | none => simp only [lookup_insert, Option.getD_none]

theorem entry_orDefault (m : HashMap K V) (j k : K) (d : V) :
    entryOr (orDefault m k d) j d = entryOr m j d := by
  unfold entryOr
  rw [lookup_orDefault]
  split
  · rename_i same
    subst same
    rfl
  · rfl

/-- A walk over the keys, in whatever order, meets the keys that are held. -/
theorem held_iff_visited {m : HashMap K V} {order : List K} (visits : order.Perm m.keys) (k : K) :
    (m.lookup k).isSome ↔ k ∈ order := by
  rw [AList.lookup_isSome, AList.mem_keys]
  exact visits.mem_iff.symm

theorem orDefault_known {m : HashMap K V} {k : K} (known : (m.lookup k).isSome) (d : V) :
    orDefault m k d = m := by
  obtain ⟨v, held⟩ := Option.isSome_iff_exists.mp known
  simp only [orDefault, held]

/-- The same two loops on a map seen as a function. -/
def storeAll (f : K → Option V) (kvs : List (K × V)) : K → Option V :=
  kvs.foldl (fun f kv j => if j = kv.1 then some kv.2 else f j) f

def dropAll (f : K → Option V) (ks : List K) : K → Option V :=
  ks.foldl (fun f k j => if j = k then none else f j) f

theorem lookup_insertAll (m : HashMap K V) (kvs : List (K × V)) (j : K) :
    (insertAll m kvs).lookup j = storeAll (fun k => m.lookup k) kvs j := by
  induction kvs generalizing m with
  | nil => rfl
  | cons kv kvs ih =>
    have step := ih (m.insert kv.1 kv.2)
    simp only [lookup_insert] at step
    exact step

theorem lookup_eraseAll (m : HashMap K V) (ks : List K) (j : K) :
    (eraseAll m ks).lookup j = dropAll (fun k => m.lookup k) ks j := by
  induction ks generalizing m with
  | nil => rfl
  | cons k ks ih =>
    have step := ih (m.erase k)
    simp only [lookup_erase] at step
    exact step

theorem storeAll_absent {f : K → Option V} {kvs : List (K × V)} {j : K}
    (absent : j ∉ kvs.map Prod.fst) : storeAll f kvs j = f j := by
  induction kvs generalizing f with
  | nil => rfl
  | cons kv kvs ih =>
    simp only [List.map_cons, List.mem_cons, not_or] at absent
    have step := ih (f := fun j => if j = kv.1 then some kv.2 else f j) absent.2
    simp only [absent.1, ↓reduceIte] at step
    exact step

theorem storeAll_present {f : K → Option V} {kvs : List (K × V)} {j : K} {v : V}
    (distinct : (kvs.map Prod.fst).Nodup) (member : (j, v) ∈ kvs) :
    storeAll f kvs j = some v := by
  induction kvs generalizing f with
  | nil => simp at member
  | cons kv kvs ih =>
    simp only [List.map_cons, List.nodup_cons] at distinct
    rcases List.mem_cons.mp member with rfl | later
    · have step := storeAll_absent (f := fun k => if k = j then some v else f k) distinct.1
      simp only [↓reduceIte] at step
      exact step
    · exact ih distinct.2 later

theorem dropAll_eq (f : K → Option V) (ks : List K) (j : K) :
    dropAll f ks j = if j ∈ ks then none else f j := by
  induction ks generalizing f with
  | nil => simp [dropAll]
  | cons k ks ih =>
    have step := ih (fun j => if j = k then none else f j)
    by_cases same : j = k <;> simp_all [dropAll]

theorem mem_pairs {m : HashMap K V} {k : K} {v : V} : (k, v) ∈ pairs m ↔ m.lookup k = some v := by
  rw [← Option.mem_def, AList.mem_lookup_iff]
  simp only [pairs, List.mem_map, Prod.mk.injEq]
  constructor
  · rintro ⟨e, member, rfl, rfl⟩
    exact member
  · intro member
    exact ⟨⟨k, v⟩, member, rfl, rfl⟩

/-- Writing all of one map into another: the written map wins. -/
theorem lookup_insertAll_pairs (m w : HashMap K V) (j : K) :
    (insertAll m (pairs w)).lookup j = (w.lookup j).or (m.lookup j) := by
  rw [lookup_insertAll]
  cases written : w.lookup j with
  | some v =>
    have distinct : ((pairs w).map Prod.fst).Nodup := pairs_keys w ▸ w.keys_nodup
    exact storeAll_present distinct (mem_pairs.mpr written)
  | none =>
    have absent : j ∉ (pairs w).map Prod.fst := by
      rw [pairs_keys, ← AList.mem_keys]
      exact AList.lookup_eq_none.mp written
    exact storeAll_absent absent

end KeyedMaps
