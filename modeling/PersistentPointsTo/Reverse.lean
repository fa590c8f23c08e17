import PersistentPointsTo.DiffPTData
import PersistentPointsTo.VersionedPTData

namespace PersistentPointsTo

variable {Key Data ID : Type} [DecidableEq Key] [LinearOrder Data] [DecidableEq ID]
variable {c : PersistentPointsToCache ID Data}

namespace PersistentPTData

/-- The reverse map agrees with the points-to sets: `d` is in the set of `k` exactly when
`k` is among the keys recorded for `d`. -/
def RevConsistent (c : PersistentPointsToCache ID Data) (s : PersistentPTData Key Data ID) :
    Prop :=
  ∀ k d, d ∈ s.ptsOf c k ↔ k ∈ s.revOf d

omit [DecidableEq ID] in
theorem RevConsistent.init : RevConsistent c (init true : PersistentPTData Key Data ID) := by
  simp [RevConsistent]

omit [DecidableEq ID] in
theorem RevConsistent.touchPts {s : PersistentPTData Key Data ID} (h : RevConsistent c s)
    (k : Key) : RevConsistent c (s.touchPts c k) := by
  simpa [RevConsistent] using h

/-- The reverse update from the source set alone suffices: the destination's old elements
already list it. -/
theorem RevConsistent.unionPtsFromId {s : PersistentPTData Key Data ID} (h : RevConsistent c s)
    (hr : s.rev = true) (k : Key) (id : ID) : RevConsistent c (s.unionPtsFromId c k id).2 := by
  intro k' d
  rw [ptsOf_unionPtsFromId, revOf_unionPtsFromId]
  by_cases hk : k' = k
  · subst k'
    by_cases hs : c.getActualPts id ⊆ s.ptsOf c k
    · simp [hs, h k d, Finset.union_eq_left.mpr hs]
    · by_cases hd : d ∈ c.getActualPts id <;> simp [hs, hr, hd, h k d]
  · split_ifs <;> simp [hk, h k' d]

theorem RevConsistent.clearPts {s : PersistentPTData Key Data ID} (h : RevConsistent c s)
    (hr : s.rev = true) (k : Key) (e : Data) : RevConsistent c (s.clearPts c k e) := by
  intro k' d
  rw [ptsOf_clearPts, revOf_clearPts]
  by_cases hd : d = e
  · subst d
    by_cases he : e ∈ s.ptsOf c k
    · by_cases hk : k' = k <;> simp [he, hr, hk, h k' e]
    · have : k ∉ s.revOf e := fun hm => he ((h k e).mpr hm)
      by_cases hk : k' = k
      · subst k'; simp [he, this]
      · simp [hk, he, h k' e]
  · by_cases hk : k' = k
    · subst k'; simp [hd, h k d]
    · simp [hk, hd, h k' d]

omit [DecidableEq ID] in
theorem RevConsistent.clearFullPts {s : PersistentPTData Key Data ID} (h : RevConsistent c s)
    (hr : s.rev = true) (k : Key) : RevConsistent c (s.clearFullPts c k) := by
  intro k' d
  rw [ptsOf_clearFullPts, revOf_clearFullPts]
  by_cases hk : k' = k
  · subst k'
    by_cases hd : d ∈ s.ptsOf c k <;> simp [hr, hd, ← h k d]
  · by_cases hd : d ∈ s.ptsOf c k <;> simp [hr, hk, hd, h k' d]

omit [DecidableEq ID] in
theorem RevConsistent.clear (s : PersistentPTData Key Data ID) : RevConsistent c s.clear := by
  simp [RevConsistent]

/-- Every call keeps the `rev` flag the store was built with. -/
@[simp] theorem rev_step (s : PersistentPTData Key Data ID) (op : PTDataOp Key Data) :
    (s.step c op).rev = s.rev := by
  cases op with
  | getRevPts data => simp only [step, getRevPts]; split_ifs <;> rfl
  | clearPts k e => exact rev_clearPts s k e
  | clearFullPts k => exact rev_clearFullPts s k
  | clear => rfl
  | getPts var => rfl
  | addPts k e => exact rev_unionPtsFromId s k _
  | unionPts k k' => exact rev_unionPtsFromId _ k _
  | unionPtsData k ds => exact rev_unionPtsFromId s k _

theorem RevConsistent.step {s : PersistentPTData Key Data ID} (h : RevConsistent c s)
    (hr : s.rev = true) (op : PTDataOp Key Data) : RevConsistent c (s.step c op) := by
  cases op with
  | clear => exact .clear s
  | getPts var => exact h.touchPts var
  | getRevPts data =>
    simp only [PersistentPTData.step, getRevPts, hr, ↓reduceIte]
    simpa [RevConsistent, revOf, ptsOf, ptsId] using h
  | addPts k e => exact h.unionPtsFromId hr k _
  | unionPts k k' => exact (h.touchPts k').unionPtsFromId hr k _
  | unionPtsData k ds => exact h.unionPtsFromId hr k _
  | clearPts k e => exact h.clearPts hr k e
  | clearFullPts k => exact h.clearFullPts hr k

/-- From a store built with reverse tracking, every sequence of calls keeps the reverse map
consistent. -/
theorem RevConsistent.foldl_step {s : PersistentPTData Key Data ID} (h : RevConsistent c s)
    (hr : s.rev = true) (ops : List (PTDataOp Key Data)) :
    RevConsistent c (ops.foldl (fun s op => s.step c op) s) ∧
      (ops.foldl (fun s op => s.step c op) s).rev = true := by
  induction ops generalizing s with
  | nil => exact ⟨h, hr⟩
  | cons op ops ih => exact ih (h.step hr op) (by rw [rev_step, hr])

omit [DecidableEq Key] [DecidableEq ID] in
theorem getRevPts_of_rev {s : PersistentPTData Key Data ID} (hr : s.rev = true) (d : Data) :
    s.getRevPts d = .ok (s.revOf d, { s with revPtsMap := touch s.revPtsMap d ∅ }) := by
  rw [getRevPts, if_pos hr]

omit [DecidableEq ID] in
/-- The consistency read through the getters themselves. -/
theorem RevConsistent.mem_getPts_iff {s : PersistentPTData Key Data ID} (h : RevConsistent c s)
    (hr : s.rev = true) (k : Key) (d : Data) :
    d ∈ (s.getPts c k).1 ↔ ∃ r, s.getRevPts d = .ok r ∧ k ∈ r.1 := by
  have := getRevPts_of_rev hr d
  simp [getPts, this, h k d]

end PersistentPTData

namespace PersistentDiffPTData

omit [DecidableEq ID] in
theorem mem_getPts_iff {s : PersistentDiffPTData Key Data ID} (h : s.persPTData.RevConsistent c)
    (hr : s.persPTData.rev = true) (k : Key) (d : Data) :
    d ∈ (s.getPts c k).1 ↔ ∃ r, s.getRevPts d = .ok r ∧ k ∈ r.1 := by
  simp [getPts, getRevPts, delegate, PersistentPTData.getRevPts_of_rev hr, hr, Except.map,
    PersistentPTData.getPts, h k d]

theorem revConsistent_foldl_step {s : PersistentDiffPTData Key Data ID}
    (h : s.persPTData.RevConsistent c) (hr : s.persPTData.rev = true)
    (ops : List (DiffPTDataOp Key Data)) :
    (ops.foldl (fun s op => s.step c op) s).persPTData.RevConsistent c ∧
      (ops.foldl (fun s op => s.step c op) s).persPTData.rev = true := by
  induction ops generalizing s with
  | nil => exact ⟨h, hr⟩
  | cons op ops ih =>
    refine ih ?_ ?_ <;> rw [persPTData_step] <;> cases op
    all_goals first | exact h.step hr _ | exact h | simp only [PersistentPTData.rev_step, hr]

end PersistentDiffPTData

namespace PersistentVersionedPTData

variable {VersionedKey : Type} [DecidableEq VersionedKey]

/-- Both key spaces keep reverse maps that agree with their points-to sets. -/
def RevConsistent (c : PersistentPointsToCache ID Data)
    (s : PersistentVersionedPTData Key VersionedKey Data ID) : Prop :=
  s.tlPTData.RevConsistent c ∧ s.tlPTData.rev = true ∧
    s.atPTData.RevConsistent c ∧ s.atPTData.rev = true

theorem RevConsistent.step {s : PersistentVersionedPTData Key VersionedKey Data ID}
    (h : RevConsistent c s) (op : VersionedPTDataOp Key VersionedKey Data) :
    RevConsistent c (s.step c op) := by
  obtain ⟨ht, htr, ha, har⟩ := h
  cases op with
  | key op =>
    show RevConsistent c (s.stepKey c op)
    by_cases hc : op = .clear
    · subst hc
      exact ⟨.clear _, htr, .clear _, har⟩
    · obtain ⟨e1, e2⟩ := stepKey_spaces (c := c) s hc
      exact ⟨e1 ▸ ht.step htr op, by rw [e1, PersistentPTData.rev_step, htr], e2 ▸ ha, e2 ▸ har⟩
  | versionedKey op =>
    show RevConsistent c (s.stepVersionedKey c op)
    by_cases hc : op = .clear
    · subst hc
      exact ⟨.clear _, htr, .clear _, har⟩
    · obtain ⟨e1, e2⟩ := stepVersionedKey_spaces (c := c) s hc
      exact ⟨e2 ▸ ht, e2 ▸ htr, e1 ▸ ha.step har op, by rw [e1, PersistentPTData.rev_step, har]⟩
  | unionPtsVersionedKeyKey dstVar srcVar =>
    show RevConsistent c (s.unionPtsVersionedKeyKey c dstVar srcVar).2
    exact ⟨ht.touchPts srcVar, htr, ha.unionPtsFromId har dstVar _,
      (PersistentPTData.rev_unionPtsFromId _ _ _).trans har⟩
  | unionPtsKeyVersionedKey dstVar srcVar =>
    show RevConsistent c (s.unionPtsKeyVersionedKey c dstVar srcVar).2
    exact ⟨ht.unionPtsFromId htr dstVar _, (PersistentPTData.rev_unionPtsFromId _ _ _).trans htr,
      ha.touchPts srcVar, har⟩

omit [DecidableEq ID] in
theorem RevConsistent.init :
    RevConsistent c (init true : PersistentVersionedPTData Key VersionedKey Data ID) :=
  ⟨.init, rfl, .init, rfl⟩

theorem RevConsistent.foldl_step {s : PersistentVersionedPTData Key VersionedKey Data ID}
    (h : RevConsistent c s) (ops : List (VersionedPTDataOp Key VersionedKey Data)) :
    RevConsistent c (ops.foldl (fun s op => s.step c op) s) := by
  induction ops generalizing s with
  | nil => exact h
  | cons op ops ih => exact ih (h.step op)

omit [DecidableEq ID] in
theorem RevConsistent.mem_getPts_iff {s : PersistentVersionedPTData Key VersionedKey Data ID}
    (h : RevConsistent c s) :
    (∀ k d, d ∈ (s.getPts c k).1 ↔ ∃ r, s.getRevPts d = .ok r ∧ k ∈ r.1) ∧
    (∀ vk d, d ∈ (s.getPtsVersionedKey c vk).1 ↔
      ∃ r, s.getVersionedKeyRevPts d = .ok r ∧ vk ∈ r.1) := by
  obtain ⟨ht, htr, ha, har⟩ := h
  refine ⟨fun k d => ?_, fun vk d => ?_⟩
  · simp [getPts, getRevPts, onTl, PersistentPTData.getRevPts_of_rev htr, htr, Except.map,
      PersistentPTData.getPts, ht k d]
  · simp [getPtsVersionedKey, getVersionedKeyRevPts, onAt, PersistentPTData.getRevPts_of_rev har,
      har, Except.map, PersistentPTData.getPts, ha vk d]

end PersistentVersionedPTData

/-- With reverse tracking, the reverse sets match the points-to sets in every reachable state of
the basic, diff and versioned stores. -/
theorem reverse_points_to_consistent {VersionedKey : Type} [DecidableEq VersionedKey] :
    (∀ ops : List (PTDataOp Key Data),
      let s := ops.foldl (fun s op => s.step c op) (PersistentPTData.init true)
      ∀ k d, d ∈ (s.getPts c k).1 ↔ ∃ r, s.getRevPts d = .ok r ∧ k ∈ r.1) ∧
    (∀ ops : List (DiffPTDataOp Key Data),
      let s := ops.foldl (fun s op => s.step c op) (PersistentDiffPTData.init true)
      ∀ k d, d ∈ (s.getPts c k).1 ↔ ∃ r, s.getRevPts d = .ok r ∧ k ∈ r.1) ∧
    (∀ ops : List (VersionedPTDataOp Key VersionedKey Data),
      let s := ops.foldl (fun s op => s.step c op) (PersistentVersionedPTData.init true)
      (∀ k d, d ∈ (s.getPts c k).1 ↔ ∃ r, s.getRevPts d = .ok r ∧ k ∈ r.1) ∧
      (∀ vk d, d ∈ (s.getPtsVersionedKey c vk).1 ↔
        ∃ r, s.getVersionedKeyRevPts d = .ok r ∧ vk ∈ r.1)) := by
  refine ⟨fun ops => ?_, fun ops => ?_, fun ops => ?_⟩
  · obtain ⟨h, hr⟩ := PersistentPTData.RevConsistent.init.foldl_step (c := c) rfl ops
    exact h.mem_getPts_iff hr
  · obtain ⟨h, hr⟩ := PersistentDiffPTData.revConsistent_foldl_step (c := c)
      (s := PersistentDiffPTData.init true) .init rfl ops
    exact PersistentDiffPTData.mem_getPts_iff h hr
  · exact (PersistentVersionedPTData.RevConsistent.init.foldl_step ops).mem_getPts_iff

end PersistentPointsTo
