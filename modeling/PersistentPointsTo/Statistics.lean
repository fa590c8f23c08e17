import PersistentPointsTo.DiffPTData
import PersistentPointsTo.VersionedPTData
import PersistentPointsTo.IncDFPTData

namespace PersistentPointsTo

section

variable {ID : Type} [DecidableEq ID]

/-- What `topN` and `inUsePointsToSets` are for, over the IDs `ids` of the entries they scan:
`topN(n)` is the most entries that `n` non-empty IDs account for, paired with the number of
entries with a non-empty ID, and `inUsePointsToSets` is the number of distinct IDs. -/
def StatsExact (empty : ID) (ids : List ID) (topN : ℕ → ℕ × ℕ) (inUse : ℕ) : Prop :=
  (∀ n, IsGreatest {m | ∃ X : Finset ID, X.card ≤ n ∧ empty ∉ X ∧ entriesIn ids X = m} (topN n).1 ∧
    (topN n).2 = ids.countP (· ≠ empty)) ∧
  inUse = ids.toFinset.card

theorem StatsExact.of_topNOf (empty : ID) (ids : List ID) :
    StatsExact empty ids (topNOf empty ids) (inUsePointsToSetsOf ids) :=
  ⟨fun n => ⟨topNOf_fst_isGreatest empty ids n, topNOf_snd empty ids n⟩, inUsePointsToSetsOf_eq ids⟩

end

variable {Key VersionedKey Data ID LocID : Type} [LinearOrder Key] [DecidableEq VersionedKey]
  [LinearOrder Data] [DecidableEq ID] [DecidableEq LocID]
variable {c : PersistentPointsToCache ID Data}

omit [LinearOrder Key] [DecidableEq VersionedKey] [DecidableEq LocID] in
/-- The statistics are exact over the entries each store scans: its top-level maps, and every IN
and OUT map of the data-flow stores. -/
theorem statistics_exact :
    (∀ s : PersistentPTData Key Data ID,
      StatsExact c.emptyPointsToId (values s.ptsMap) (s.topN c) s.inUsePointsToSets) ∧
    (∀ s : PersistentDiffPTData Key Data ID,
      StatsExact c.emptyPointsToId (values s.persPTData.ptsMap) (s.topN c) s.inUsePointsToSets) ∧
    (∀ s : PersistentDFPTData Key Data ID LocID,
      StatsExact c.emptyPointsToId (values s.persPTData.ptsMap ++
        (values s.dfInPtsMap).flatMap values ++ (values s.dfOutPtsMap).flatMap values)
        (s.topN c) s.inUsePointsToSets) ∧
    (∀ s : PersistentIncDFPTData Key Data ID LocID,
      StatsExact c.emptyPointsToId (values s.persPTData.ptsMap ++
        (values s.dfInPtsMap).flatMap values ++ (values s.dfOutPtsMap).flatMap values)
        (s.topN c) s.inUsePointsToSets) ∧
    (∀ s : PersistentVersionedPTData Key VersionedKey Data ID,
      StatsExact c.emptyPointsToId (values s.tlPTData.ptsMap ++ values s.atPTData.ptsMap)
        (s.topN c) s.inUsePointsToSets) :=
  ⟨fun _ => .of_topNOf _ _, fun _ => .of_topNOf _ _, fun _ => .of_topNOf _ _,
    fun _ => .of_topNOf _ _, fun _ => .of_topNOf _ _⟩

/-- Reads through `operator[]` are observable: `getPts(k)` and `clearPts(k, d)` of an absent key
add an entry of the empty set's ID, which `inUsePointsToSets()` counts if it is new. -/
theorem absent_key_read_counts_empty_id (s : PersistentPTData Key Data ID) (k : Key) (d : Data)
    (hk : k ∉ s.ptsMap) (hempty : c.emptyPointsToId ∉ values s.ptsMap) :
    (s.getPts c k).2.inUsePointsToSets = s.inUsePointsToSets + 1 ∧
      (s.clearPts c k d).inUsePointsToSets = s.inUsePointsToSets + 1 := by
  have htouch : (s.touchPts c k).inUsePointsToSets = s.inUsePointsToSets + 1 := by
    have hv : values (s.touchPts c k).ptsMap = c.emptyPointsToId :: values s.ptsMap := by
      simp only [PersistentPTData.touchPts, touch, if_neg hk, values, AList.insert_entries_of_neg hk,
        List.map_cons]
    rw [PersistentPTData.inUsePointsToSets, PersistentPTData.inUsePointsToSets,
      inUsePointsToSetsOf_eq, inUsePointsToSetsOf_eq, hv, List.toFinset_cons,
      Finset.card_insert_of_not_mem (by simpa using hempty)]
  -- the absent key reads the empty set, which lacks `d`
  have hclear : s.clearPts c k d = s.touchPts c k := s.clearPts_of_not_mem (by
    simp [PersistentPTData.ptsOf, PersistentPTData.ptsId, valueAt_of_not_mem hk])
  exact ⟨htouch, hclear ▸ htouch⟩

/- On a fresh store, reading key `0` or removing `0` from it takes `inUsePointsToSets()` from 0
to 1. -/
example :
    let s : PersistentPTData ℕ ℕ (Finset ℕ) := PersistentPTData.init false
    (0 ∉ s.ptsMap ∧ (finsetCache ℕ).emptyPointsToId ∉ values s.ptsMap) ∧
      (s.getPts (finsetCache ℕ) 0).2.inUsePointsToSets = s.inUsePointsToSets + 1 ∧
      (s.clearPts (finsetCache ℕ) 0 0).inUsePointsToSets = s.inUsePointsToSets + 1 :=
  ⟨⟨by decide, by decide⟩, absent_key_read_counts_empty_id _ 0 0 (by decide) (by decide)⟩

end PersistentPointsTo
