import PersistentPointsTo.Map
import Mathlib.Algebra.Order.Ring.Nat
import Mathlib.Data.List.Sort
import Mathlib.Algebra.BigOperators.Group.Finset
import Mathlib.Order.Bounds.Basic

namespace PersistentPointsTo

/-- Choosing at most `n` elements of a list sorted by decreasing `f` gains at most the
first `n` values. -/
theorem sum_le_sum_take {α : Type} [DecidableEq α] (f : α → ℕ) {L : List α} (hnd : L.Nodup)
    (hs : L.Sorted fun a b => f b ≤ f a) {n : ℕ} {Y : Finset α} (hY : Y ⊆ L.toFinset)
    (hc : Y.card ≤ n) : ∑ y ∈ Y, f y ≤ ((L.map f).take n).sum := by
  induction L generalizing n Y with
  | nil =>
    rw [List.toFinset_nil, Finset.subset_empty] at hY
    simp [hY]
  | cons a L ih =>
    obtain ⟨hna, hnd⟩ := List.nodup_cons.mp hnd
    obtain ⟨hle, hs⟩ := List.sorted_cons.mp hs
    cases n with
    | zero => simp [Finset.card_eq_zero.mp (Nat.le_zero.mp hc)]
    | succ m =>
      rw [List.map_cons, List.take_succ_cons, List.sum_cons]
      rcases Finset.eq_empty_or_nonempty Y with rfl | ⟨z, hz⟩
      · simp
      -- the element paid for by the head: the head itself when chosen
      obtain ⟨y, hy, hfy, hya⟩ : ∃ y ∈ Y, f y ≤ f a ∧ (a ∈ Y → y = a) := by
        by_cases ha : a ∈ Y
        · exact ⟨a, ha, le_rfl, fun _ => rfl⟩
        · have hzL : z ∈ L := by
            have := List.mem_toFinset.mp (hY hz)
            exact (List.mem_cons.mp this).resolve_left (fun h => ha (h ▸ hz))
          exact ⟨z, hz, hle z hzL, fun h => absurd h ha⟩
      have hsub : Y.erase y ⊆ L.toFinset := by
        intro w hw
        obtain ⟨hwy, hwY⟩ := Finset.mem_erase.mp hw
        rcases List.mem_cons.mp (List.mem_toFinset.mp (hY hwY)) with rfl | hwL
        · exact absurd (hya hwY).symm hwy
        · exact List.mem_toFinset.mpr hwL
      have hrest := ih hnd hs hsub (n := m) (by rw [Finset.card_erase_of_mem hy]; omega)
      rw [← Finset.add_sum_erase Y f hy]
      omega

variable {ID : Type} [DecidableEq ID]

/-- One iteration of the loop of `topN` over the entries: an ID other than `empty` is
counted in `ptCounts` and in `keys`. -/
def countStep (empty : ID) (acc : Map ID ℕ × ℕ) (id : ID) : Map ID ℕ × ℕ :=
  if id ≠ empty then (acc.1.insert id (valueAt acc.1 id 0 + 1), acc.2 + 1) else acc

/-- `ptCounts` and `keys` of `topN`, after the loop over the IDs of all entries. -/
def countPts (empty : ID) (ids : List ID) : Map ID ℕ × ℕ :=
  ids.foldl (countStep empty) (∅, 0)

/-- `topN` of the source, over the IDs of the entries of the maps it scans: the counts
sorted in descending order, the sum of the first `n` of them, and the number of entries. -/
def topNOf (empty : ID) (ids : List ID) (n : ℕ) : ℕ × ℕ :=
  let counts := (values (countPts empty ids).1).insertionSort (· ≥ ·)
  ((counts.take n).sum, (countPts empty ids).2)

/-- `inUsePointsToSets` of the source: how many IDs the entries hold. -/
def inUsePointsToSetsOf (ids : List ID) : ℕ :=
  (ids.foldl (fun s id => insert id s) (∅ : Finset ID)).card

/-- How many entries name an ID of `X`. -/
def entriesIn (ids : List ID) (X : Finset ID) : ℕ := ids.countP (· ∈ X)

theorem countPts_foldl (empty : ID) (ids : List ID) (acc : Map ID ℕ × ℕ) :
    (ids.foldl (countStep empty) acc).2 = acc.2 + ids.countP (· ≠ empty) ∧
    (∀ x, valueAt (ids.foldl (countStep empty) acc).1 x 0 =
      valueAt acc.1 x 0 + if x = empty then 0 else ids.count x) ∧
    ∀ x, x ∈ (ids.foldl (countStep empty) acc).1 ↔ x ∈ acc.1 ∨ (x ∈ ids ∧ x ≠ empty) := by
  induction ids generalizing acc with
  | nil => simp
  | cons a ids ih =>
    rw [List.foldl_cons]
    by_cases ha : a = empty
    · subst a
      have hs : countStep empty acc empty = acc := by simp [countStep]
      obtain ⟨h2, hv, hm⟩ := ih acc
      rw [hs]
      refine ⟨by simp [h2], fun x => ?_, fun x => ?_⟩
      · rw [hv]; by_cases hx : x = empty <;> simp [hx, List.count_cons]
      · rw [hm, List.mem_cons]
        constructor <;> intro h <;> aesop
    · obtain ⟨h2, hv, hm⟩ := ih (acc.1.insert a (valueAt acc.1 a 0 + 1), acc.2 + 1)
      have hs : countStep empty acc a = (acc.1.insert a (valueAt acc.1 a 0 + 1), acc.2 + 1) := by
        simp [countStep, ha]
      rw [hs]
      refine ⟨by simp [h2, ha]; omega, fun x => ?_, fun x => ?_⟩
      · rw [hv]
        by_cases hx : x = a
        · subst x; simp [ha, List.count_cons]; omega
        · simp [hx, List.count_cons, Ne.symm hx]
      · rw [hm, AList.mem_insert, List.mem_cons]; aesop

theorem entriesIn_eq_sum (ids : List ID) (X : Finset ID) :
    entriesIn ids X = ∑ x ∈ X, ids.count x := by
  induction ids with
  | nil => simp [entriesIn]
  | cons a ids ih =>
    simp only [entriesIn, List.countP_cons, List.count_cons, beq_iff_eq] at ih ⊢
    rw [ih, Finset.sum_add_distrib, Finset.sum_ite_eq]
    simp

theorem mem_countPts {empty x : ID} {ids : List ID} :
    x ∈ (countPts empty ids).1 ↔ x ∈ ids ∧ x ≠ empty := by
  simpa using (countPts_foldl empty ids (∅, 0)).2.2 x

/-- The counts `topN` sorts: for every key of `ptCounts`, the entries that name it. -/
theorem values_countPts (empty : ID) (ids : List ID) :
    values (countPts empty ids).1 = (countPts empty ids).1.keys.map fun x => ids.count x := by
  rw [values_eq_map_keys _ 0]
  refine List.map_congr_left fun x hx => ?_
  have hne := (mem_countPts.mp (AList.mem_keys.mpr hx)).2
  simpa [hne] using (countPts_foldl empty ids (∅, 0)).2.1 x

theorem topNOf_snd (empty : ID) (ids : List ID) (n : ℕ) :
    (topNOf empty ids n).2 = ids.countP (· ≠ empty) := by
  simpa using (countPts_foldl empty ids (∅, 0)).1

/-- The first component of `topN` is the largest number of entries that `n` IDs other
than `empty` can account for: sorting the counts and summing a prefix is optimal. -/
theorem topNOf_fst_isGreatest (empty : ID) (ids : List ID) (n : ℕ) :
    IsGreatest {m | ∃ X : Finset ID, X.card ≤ n ∧ empty ∉ X ∧ entriesIn ids X = m}
      (topNOf empty ids n).1 := by
  set K := (countPts empty ids).1.keys
  set f : ID → ℕ := fun x => ids.count x
  let r : ID → ID → Prop := fun a b => f b ≤ f a
  haveI : IsTotal ID r := ⟨fun a b => le_total (f b) (f a)⟩
  haveI : IsTrans ID r := ⟨fun _ _ _ hab hbc => le_trans hbc hab⟩
  -- the keys in the order of their sorted counts
  set K' := K.insertionSort r
  have hperm : K'.Perm K := List.perm_insertionSort r K
  have hnd : K'.Nodup := hperm.nodup_iff.mpr (AList.keys_nodup _)
  have hsorted : K'.Sorted r := List.sorted_insertionSort r K
  have hcounts : (values (countPts empty ids).1).insertionSort (· ≥ ·) = K'.map f := by
    rw [values_countPts]
    exact List.eq_of_perm_of_sorted ((List.perm_insertionSort _ _).trans (hperm.map f).symm)
      (List.sorted_insertionSort _ _) (hsorted.map f fun _ _ h => h)
  have hK : ∀ {x}, x ∈ K' ↔ x ∈ ids ∧ x ≠ empty := by
    intro x; rw [hperm.mem_iff, ← AList.mem_keys, mem_countPts]
  have hfst : (topNOf empty ids n).1 = ((K'.map f).take n).sum := by
    simp only [topNOf, hcounts]
  rw [hfst]
  refine ⟨⟨(K'.take n).toFinset, ?_, ?_, ?_⟩, ?_⟩
  · exact (List.toFinset_card_le _).trans (List.length_take_le _ _)
  · intro he
    exact (hK.mp (List.mem_of_mem_take (List.mem_toFinset.mp he))).2 rfl
  · rw [entriesIn_eq_sum, List.sum_toFinset _ (hnd.sublist (List.take_sublist _ _)), List.map_take]
  · rintro _ ⟨X, hc, he, rfl⟩
    rw [entriesIn_eq_sum, ← Finset.sum_filter_of_ne (p := (· ∈ K')) fun x hx h0 =>
      hK.mpr ⟨List.count_pos_iff.mp (Nat.pos_of_ne_zero h0), fun h => he (h ▸ hx)⟩]
    exact sum_le_sum_take f hnd hsorted (fun x hx => List.mem_toFinset.mpr (Finset.mem_filter.mp hx).2)
      ((Finset.card_filter_le _ _).trans hc)

theorem inUsePointsToSetsOf_eq (ids : List ID) : inUsePointsToSetsOf ids = ids.toFinset.card := by
  suffices ∀ acc : Finset ID, ids.foldl (fun s id => insert id s) acc = acc ∪ ids.toFinset by
    simp [inUsePointsToSetsOf, this]
  induction ids with
  | nil => simp
  | cons a ids ih =>
    intro acc
    rw [List.foldl_cons, ih, List.toFinset_cons]
    ext; simp [or_left_comm]

end PersistentPointsTo
