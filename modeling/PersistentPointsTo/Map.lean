import Mathlib.Data.List.AList

namespace PersistentPointsTo

/-- The source's `Map<K, V>`: finitely many entries, at most one per key. -/
abbrev Map (K V : Type) := AList fun _ : K => V

variable {K V : Type} [DecidableEq K]

/-- The value `m[k]` reads: the entry at `k`, or the default `d` when there is none. -/
def valueAt (m : Map K V) (k : K) (d : V) : V := (m.lookup k).getD d

/-- The map after a read `m[k]`: `operator[]` inserts the default `d` at a missing key. -/
def touch (m : Map K V) (k : K) (d : V) : Map K V := if k ∈ m then m else m.insert k d

/-- The values of the entries, in iteration order. -/
def values (m : Map K V) : List V := m.entries.map Sigma.snd

@[simp] theorem valueAt_empty (k : K) (d : V) : valueAt (∅ : Map K V) k d = d := rfl

@[simp] theorem valueAt_insert (m : Map K V) (k k' : K) (v d : V) :
    valueAt (m.insert k v) k' d = if k' = k then v else valueAt m k' d := by
  by_cases h : k' = k
  · subst h; simp [valueAt, AList.lookup_insert]
  · simp [valueAt, AList.lookup_insert_ne h, h]

theorem valueAt_of_not_mem {m : Map K V} {k : K} (h : k ∉ m) (d : V) : valueAt m k d = d := by
  simp [valueAt, AList.lookup_eq_none.mpr h]

/-- Reading through `operator[]` changes no value any later read sees. -/
@[simp] theorem valueAt_touch (m : Map K V) (k k' : K) (d : V) :
    valueAt (touch m k d) k' d = valueAt m k' d := by
  unfold touch
  split
  · rfl
  · rename_i hk
    rw [valueAt_insert]
    split
    · subst k'; exact (valueAt_of_not_mem hk d).symm
    · rfl

@[simp] theorem mem_touch (m : Map K V) (k k' : K) (d : V) : k' ∈ touch m k d ↔ k' = k ∨ k' ∈ m := by
  unfold touch
  split
  · rename_i hk
    exact ⟨Or.inr, fun h => h.elim (fun e => e ▸ hk) id⟩
  · exact AList.mem_insert _

theorem mem_insert_self (m : Map K V) (k : K) (v : V) : k ∈ m.insert k v :=
  (AList.mem_insert _).mpr (Or.inl rfl)

/-- Each entry holds the value its key reads. -/
theorem values_eq_map_keys (m : Map K V) (d : V) :
    values m = m.keys.map fun k => valueAt m k d := by
  unfold values AList.keys List.keys
  rw [List.map_map]
  refine List.map_congr_left fun e he => ?_
  have : m.lookup e.1 = some e.2 := AList.mem_lookup_iff.mpr he
  simp [valueAt, this]

/-- `for (k : ks) f(m[k])`: the loop body applied, in order, to the entry of each key. -/
def modifyEach (m : Map K V) (ks : List K) (d : V) (f : V → V) : Map K V :=
  ks.foldl (fun m k => m.insert k (f (valueAt m k d))) m

theorem valueAt_modifyEach (m : Map K V) {ks : List K} (hks : ks.Nodup) (d : V) (f : V → V)
    (k : K) : valueAt (modifyEach m ks d f) k d = if k ∈ ks then f (valueAt m k d) else valueAt m k d := by
  induction ks generalizing m with
  | nil => simp [modifyEach]
  | cons a ks ih =>
    obtain ⟨ha, hks⟩ := List.nodup_cons.mp hks
    have := ih (m.insert a (f (valueAt m a d))) hks
    simp only [modifyEach, List.foldl_cons] at this ⊢
    rw [this, valueAt_insert]
    by_cases hk : k = a
    · subst k; simp [ha]
    · simp [hk]

end PersistentPointsTo
