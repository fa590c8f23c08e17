import PersistentPointsTo.Reverse
import PersistentPointsTo.IncDFPTData

namespace PersistentPointsTo

variable {Key Data ID : Type} [DecidableEq Key] [LinearOrder Data] [DecidableEq ID]
variable {c : PersistentPointsToCache ID Data}

theorem PersistentPTData.rev_foldl_step (s : PersistentPTData Key Data ID)
    (ops : List (PTDataOp Key Data)) : (ops.foldl (PersistentPTData.step c) s).rev = s.rev := by
  induction ops generalizing s with
  | nil => rfl
  | cons op ops ih => rw [List.foldl_cons, ih, rev_step]

theorem PersistentDiffPTData.rev_foldl_step (s : PersistentDiffPTData Key Data ID)
    (ops : List (DiffPTDataOp Key Data)) :
    (ops.foldl (PersistentDiffPTData.step c) s).persPTData.rev = s.persPTData.rev := by
  induction ops generalizing s with
  | nil => rfl
  | cons op ops ih =>
    rw [List.foldl_cons, ih, persPTData_step]
    cases op <;> simp

theorem PersistentVersionedPTData.rev_foldl_step {VersionedKey : Type} [DecidableEq VersionedKey]
    (s : PersistentVersionedPTData Key VersionedKey Data ID)
    (ops : List (VersionedPTDataOp Key VersionedKey Data)) :
    (ops.foldl (PersistentVersionedPTData.step c) s).tlPTData.rev = s.tlPTData.rev ∧
    (ops.foldl (PersistentVersionedPTData.step c) s).atPTData.rev = s.atPTData.rev := by
  induction ops generalizing s with
  | nil => exact ⟨rfl, rfl⟩
  | cons op ops ih =>
    rw [List.foldl_cons, (ih _).1, (ih _).2]
    cases op with
    | key op =>
      by_cases hc : op = .clear
      · subst hc; exact ⟨rfl, rfl⟩
      · obtain ⟨ht, ha⟩ := stepKey_spaces (c := c) s hc
        exact ⟨by simp [step, ht], by simp [step, ha]⟩
    | versionedKey op =>
      by_cases hc : op = .clear
      · subst hc; exact ⟨rfl, rfl⟩
      · obtain ⟨ha, ht⟩ := stepVersionedKey_spaces (c := c) s hc
        exact ⟨by simp [step, ht], by simp [step, ha]⟩
    | unionPtsVersionedKeyKey => exact ⟨rfl, by simp [step, unionPtsVersionedKeyKey, onAt]⟩
    | unionPtsKeyVersionedKey => exact ⟨by simp [step, unionPtsKeyVersionedKey, onTl], rfl⟩

/-- `clear()` gives back the fresh basic, diff or versioned store from any reachable state. -/
theorem clear_resets_plain_stores {VersionedKey : Type} [DecidableEq VersionedKey] (reversePT : Bool) :
    (∀ ops : List (PTDataOp Key Data),
      (ops.foldl (PersistentPTData.step c) (PersistentPTData.init reversePT)).clear =
        PersistentPTData.init reversePT) ∧
    (∀ ops : List (DiffPTDataOp Key Data),
      (ops.foldl (PersistentDiffPTData.step c) (PersistentDiffPTData.init reversePT)).clear =
        PersistentDiffPTData.init reversePT) ∧
    (∀ ops : List (VersionedPTDataOp Key VersionedKey Data),
      (ops.foldl (PersistentVersionedPTData.step c) (PersistentVersionedPTData.init reversePT)).clear =
        PersistentVersionedPTData.init reversePT) := by
  refine ⟨fun ops => ?_, fun ops => ?_, fun ops => ?_⟩
  · have h := PersistentPTData.rev_foldl_step (c := c) (PersistentPTData.init reversePT) ops
    simp only [PersistentPTData.clear, PersistentPTData.init] at h ⊢
    rw [h]
  · have h := PersistentDiffPTData.rev_foldl_step (c := c) (PersistentDiffPTData.init reversePT) ops
    simp only [PersistentDiffPTData.clear, PersistentDiffPTData.init, PersistentPTData.clear,
      PersistentPTData.init] at h ⊢
    rw [h]
  · obtain ⟨ht, ha⟩ := PersistentVersionedPTData.rev_foldl_step (c := c)
      (PersistentVersionedPTData.init reversePT) ops
    simp only [PersistentVersionedPTData.clear, PersistentVersionedPTData.init,
      PersistentPTData.clear, PersistentPTData.init] at ht ha ⊢
    rw [ht, ha]

/-- `clear()` of the data-flow stores resets only the top-level store: after `addPts(0, 1)` and
`updateATVPts(0, 0, 0)` it leaves `OUT[0][0] = {1}`, its map and its updated flag. -/
theorem clear_keeps_dataflow_sets :
    let ops : List (DFPTDataOp ℕ ℕ ℕ) := [.base (.addPts 0 1), .transfer (.updateATVPts 0 0 0)]
    let s : PersistentDFPTData ℕ ℕ (Finset ℕ) ℕ :=
      (ops.foldl (PersistentDFPTData.step (finsetCache ℕ)) (PersistentDFPTData.init false)).clear
    let t : PersistentIncDFPTData ℕ ℕ (Finset ℕ) ℕ := (ops ++ [DFPTDataOp.base PTDataOp.clear]).foldl
      (PersistentIncDFPTData.step (finsetCache ℕ)) (PersistentIncDFPTData.init false)
    (s.getDFOutPtsSet (finsetCache ℕ) 0 0).1 = {1} ∧ s.hasDFOutSet 0 = true ∧
    ((PersistentDFPTData.init false : PersistentDFPTData ℕ ℕ (Finset ℕ) ℕ).getDFOutPtsSet
      (finsetCache ℕ) 0 0).1 = ∅ ∧
    (PersistentDFPTData.init false : PersistentDFPTData ℕ ℕ (Finset ℕ) ℕ).hasDFOutSet 0 = false ∧
    (t.getDFOutPtsSet (finsetCache ℕ) 0 0).1 = {1} ∧ t.outUpdated 0 = {0} ∧
    (PersistentIncDFPTData.init false : PersistentIncDFPTData ℕ ℕ (Finset ℕ) ℕ).outUpdated 0 = ∅ := by
  decide

/-- The two removals of the base store are idempotent: `clearPts(k, d)` with `d ∉ getPts(k)`
does what `getPts(k)` does and no more, and a second `clearFullPts(k)` changes nothing. -/
theorem clear_calls_idempotent (s : PersistentPTData Key Data ID) (k : Key) (d : Data) :
    (d ∉ s.ptsOf c k → s.clearPts c k d = (s.getPts c k).2) ∧
      (s.clearFullPts c k).clearFullPts c k = s.clearFullPts c k := by
  refine ⟨s.clearPts_of_not_mem, ?_⟩
  -- the first call leaves `k`'s entry first in the map, holding the empty set's ID
  obtain ⟨t, ht⟩ : ∃ t : PersistentPTData Key Data ID,
      s.clearFullPts c k = { t with ptsMap := t.ptsMap.insert k c.emptyPointsToId } := ⟨_, rfl⟩
  have hmem : k ∈ t.ptsMap.insert k c.emptyPointsToId := mem_insert_self _ _ _
  rw [ht]
  simp only [PersistentPTData.clearFullPts, PersistentPTData.getPts, PersistentPTData.touchPts,
    touch, if_pos hmem, PersistentPTData.clearRevPts, PersistentPTData.ptsOf,
    PersistentPTData.ptsId, valueAt_insert, if_true, c.getActualPts_emptyPointsToId,
    Finset.sort_empty, modifyEach, List.foldl_nil, ite_self, AList.insert_insert]

end PersistentPointsTo
