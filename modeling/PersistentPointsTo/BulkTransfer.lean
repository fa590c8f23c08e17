import PersistentPointsTo.DirtyFlags

namespace PersistentPointsTo

variable {Key Data ID LocID : Type} [LinearOrder Key] [LinearOrder Data] [DecidableEq ID]
  [DecidableEq LocID]
variable {c : PersistentPointsToCache ID Data}

omit [LinearOrder Key] in
/-- The result of a bulk join is whether some OUT set at its location moved. -/
theorem result_iff_dfOut_moved {σ σ' : Slot Key LocID → Finset Data} {loc : LocID}
    {p : Key → Prop} [DecidablePred p] {b : Bool} (hσ : σ' = Slot.joinInToOut σ loc p)
    (hb : b = true ↔ ∃ k, p k ∧ ¬ σ (.dfIn loc k) ⊆ σ (.dfOut loc k)) :
    b = true ↔ ∃ k, σ' (.dfOut loc k) ≠ σ (.dfOut loc k) := by
  simp only [hb, hσ, Slot.joinInToOut_dfOut_ne_iff]

/-- In a reachable incremental store, a key in `loc`'s IN updated set has an entry in `IN[loc]`,
so the bulk transfer's `hasDFInSet(loc)` test never hides a flagged key. -/
theorem PersistentIncDFPTData.hasDFInSet_of_mem_inUpdated (reversePT : Bool)
    (ops : List (DFPTDataOp Key Data LocID)) {loc : LocID} {k : Key}
    (hk : k ∈ (ops.foldl (PersistentIncDFPTData.step c)
      (PersistentIncDFPTData.init reversePT : PersistentIncDFPTData Key Data ID LocID)).inUpdated loc) :
    (ops.foldl (PersistentIncDFPTData.step c)
      (PersistentIncDFPTData.init reversePT : PersistentIncDFPTData Key Data ID LocID)).hasDFInSet loc =
      true :=
  PersistentDFPTData.hasDFInSet_of_hasDFInSetVar _
    (((PersistentIncDFPTData.FlagsExact.reachable reversePT ops).hasEntry loc k).1 hk)

/-- In a reachable incremental store, `clearAllDFOutUpdatedVar(loc)` empties `loc`'s OUT updated
set and changes nothing else, since every flagged key has an entry. -/
theorem clear_out_flags_reachable (reversePT : Bool) (ops : List (DFPTDataOp Key Data LocID))
    (loc : LocID) :
    let s : PersistentIncDFPTData Key Data ID LocID :=
      ops.foldl (PersistentIncDFPTData.step c) (PersistentIncDFPTData.init reversePT)
    (s.clearAllDFOutUpdatedVar loc).outUpdated loc = ∅ ∧
    (s.clearAllDFOutUpdatedVar loc).toPersistentDFPTData = s.toPersistentDFPTData ∧
    ∀ y, (∀ k, y ≠ .dfOut loc k) → (s.clearAllDFOutUpdatedVar loc).flagged y = s.flagged y := by
  intro s
  obtain ⟨h1, h2⟩ := s.clearAllDFOutUpdatedVar_spec loc
  refine ⟨Finset.eq_empty_of_forall_not_mem fun k hk => ?_, h1, fun y hy => ?_⟩
  · -- the key was flagged before, so `OUT[loc]` has its entry
    obtain ⟨hf, hn⟩ := (h2 (.dfOut loc k)).mp ((PersistentIncDFPTData.flagged_dfOut _ loc k).mpr hk)
    have hentry := ((PersistentIncDFPTData.FlagsExact.reachable reversePT ops).hasEntry loc k).2
      ((PersistentIncDFPTData.flagged_dfOut s loc k).mp hf)
    exact hn ⟨PersistentDFPTData.hasDFOutSet_of_hasDFOutSetVar _ hentry, k, rfl⟩
  · exact Bool.eq_iff_iff.mpr ((h2 y).trans (and_iff_left fun ⟨_, k, hk⟩ => hy k hk))

/-- `updateAllDFOutFromIn(loc, v, su)` joins `IN[loc][k]` into `OUT[loc][k]` over `IN[loc]`'s keys
(the incremental store: its IN updated keys), skipping a strongly updated `v`. -/
theorem update_all_out_from_in :
    (∀ (s : PersistentDFPTData Key Data ID LocID) (loc : LocID) (v : Key) (su : Bool),
      (s.updateAllDFOutFromIn c loc v su).2.ptsAt c = Slot.joinInToOut (s.ptsAt c) loc
        (fun k => s.hasDFInSetVar loc k = true ∧ ¬(su = true ∧ k = v)) ∧
      ((s.updateAllDFOutFromIn c loc v su).1 = true ↔
        ∃ k, (s.updateAllDFOutFromIn c loc v su).2.ptsAt c (.dfOut loc k) ≠
          s.ptsAt c (.dfOut loc k))) ∧
    (∀ (reversePT : Bool) (ops : List (DFPTDataOp Key Data LocID)) (loc : LocID) (v : Key)
      (su : Bool),
      let s : PersistentIncDFPTData Key Data ID LocID :=
        ops.foldl (PersistentIncDFPTData.step c) (PersistentIncDFPTData.init reversePT)
      (s.updateAllDFOutFromIn c loc v su).2.ptsAt c = Slot.joinInToOut (s.ptsAt c) loc
        (fun k => k ∈ s.inUpdated loc ∧ ¬(su = true ∧ k = v)) ∧
      ((s.updateAllDFOutFromIn c loc v su).1 = true ↔
        ∃ k, (s.updateAllDFOutFromIn c loc v su).2.ptsAt c (.dfOut loc k) ≠
          s.ptsAt c (.dfOut loc k)) ∧
      ∀ y, (s.updateAllDFOutFromIn c loc v su).2.flagged y = true ↔
        (s.flagged y = true ∧ ¬ ∃ k, (k ∈ s.inUpdated loc ∧ ¬(su = true ∧ k = v)) ∧ y = .dfIn loc k) ∨
        ∃ k, y = .dfOut loc k ∧
          (s.updateAllDFOutFromIn c loc v su).2.ptsAt c y ≠ s.ptsAt c y) := by
  refine ⟨fun s loc v su => ?_, fun reversePT ops loc v su => ?_⟩
  · obtain ⟨h1, h2⟩ := PersistentDFPTData.updateAllDFOutFromIn_spec (c := c) s loc v su
    exact ⟨h2, result_iff_dfOut_moved h2 (h1.trans (by simp only [and_assoc]))⟩
  · intro s
    -- in a reachable store the `hasDFInSet(loc)` test holds of every flagged key
    have hsel : ∀ k, (s.hasDFInSet loc = true ∧ k ∈ s.inUpdated loc ∧ ¬(su = true ∧ k = v)) ↔
        (k ∈ s.inUpdated loc ∧ ¬(su = true ∧ k = v)) := fun k =>
      ⟨fun h => h.2, fun h => ⟨PersistentIncDFPTData.hasDFInSet_of_mem_inUpdated reversePT ops h.1, h⟩⟩
    obtain ⟨h1, h2, h3⟩ := PersistentIncDFPTData.updateAllDFOutFromIn_spec (c := c) s loc v su
    rw [Slot.joinInToOut_congr _ _ hsel] at h2
    simp only [hsel] at h1 h3
    refine ⟨h2, result_iff_dfOut_moved h2 h1, fun y => ?_⟩
    rw [h3, h2]
    refine or_congr Iff.rfl ⟨fun ⟨k, hk, he, hn⟩ => ⟨k, he, ?_⟩, fun ⟨k, he, hn⟩ => ⟨k, ?_⟩⟩
    · subst he; exact (Slot.joinInToOut_dfOut_ne_iff _ _ _ _).mpr ⟨hk, hn⟩
    · subst he; exact ⟨((Slot.joinInToOut_dfOut_ne_iff _ _ _ _).mp hn).1, rfl,
        ((Slot.joinInToOut_dfOut_ne_iff _ _ _ _).mp hn).2⟩

end PersistentPointsTo
